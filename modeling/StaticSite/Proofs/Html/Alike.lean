import Mathlib.Data.Option.Basic
import StaticSite.Proofs.Html.Forest
import StaticSite.Proofs.Sources

/-!
# Forests that differ in their origins

Two forests are alike if they are the same but for the origins of their elements, which are related
by some relation. Nothing that is done with forests looks at origins, but for `retainFirst`, which
compares them: it keeps forests alike if the relation tells the numbers of instances apart.
-/

namespace StaticSite.Html

/-- Tags that are the same but for their origins, which are related. -/
structure Tag.Alike (R : Origin → Origin → Prop) (t u : Tag) : Prop where
  name : t.name = u.name
  attrs : t.attrs = u.attrs
  selfClosing : t.selfClosing = u.selfClosing
  origin : Option.Rel R t.origin u.origin

/-- Forests that are the same but for origins, which are related. -/
inductive Alike (R : Origin → Origin → Prop) : Forest → Forest → Prop where
  | nil : Alike R [] []
  | leaf {n : Node} {ns ms : Forest} (h : n.isLeaf = true) (hns : Alike R ns ms) :
      Alike R (n :: ns) (n :: ms)
  | element {t u : Tag} {cs ds ns ms : Forest} (ht : t.Alike R u) (hcs : Alike R cs ds)
      (hns : Alike R ns ms) : Alike R (.element t cs :: ns) (.element u ds :: ms)

variable {R S T : Origin → Origin → Prop} {ns ms ks : Forest}

theorem Alike.append {ns' ms' : Forest} (h : Alike R ns ms) (h' : Alike R ns' ms') :
    Alike R (ns ++ ns') (ms ++ ms') := by
  induction h with
  | nil => exact h'
  | leaf hl _ ih => exact .leaf hl ih
  | element ht hcs _ _ ih => exact .element ht hcs ih

/-! ## Relations of origins -/

namespace Tag.Alike

variable {t u w : Tag}

theorem is (h : t.Alike R u) (name : String) : t.is name = u.is name := by
  rw [Tag.is, Tag.is, h.name]

theorem mono (h : ∀ o o', R o o' → S o o') (ht : t.Alike R u) : t.Alike S u := by
  refine ⟨ht.name, ht.attrs, ht.selfClosing, ?_⟩
  have ho := ht.origin
  generalize t.origin = a at ho ⊢
  generalize u.origin = b at ho ⊢
  cases ho with
  | some ho => exact .some (h _ _ ho)
  | none => exact .none

theorem refl (h : ∀ o, R o o) (t : Tag) : t.Alike R t := by
  refine ⟨rfl, rfl, rfl, ?_⟩
  rcases t.origin with _ | o
  · exact .none
  · exact .some (h o)

theorem symm (h : ∀ o o', R o o' → S o' o) (ht : t.Alike R u) : u.Alike S t := by
  refine ⟨ht.name.symm, ht.attrs.symm, ht.selfClosing.symm, ?_⟩
  have ho := ht.origin
  generalize t.origin = a at ho ⊢
  generalize u.origin = b at ho ⊢
  cases ho with
  | some ho => exact .some (h _ _ ho)
  | none => exact .none

theorem trans (h : ∀ o o' o'', R o o' → S o' o'' → T o o'') (ht : t.Alike R u)
    (hu : u.Alike S w) : t.Alike T w := by
  refine ⟨ht.name.trans hu.name, ht.attrs.trans hu.attrs, ht.selfClosing.trans hu.selfClosing, ?_⟩
  have htu := ht.origin
  have huw := hu.origin
  generalize t.origin = a at htu ⊢
  generalize u.origin = b at htu huw
  generalize w.origin = d at huw ⊢
  cases htu with
  | some ho => cases huw with
    | some ho' => exact .some (h _ _ _ ho ho')
  | none => cases huw with
    | none => exact .none

theorem origin_isNone (ht : t.Alike R u) : t.origin.isNone = u.origin.isNone := by
  have ho := ht.origin
  generalize t.origin = a at ho ⊢
  generalize u.origin = b at ho ⊢
  cases ho with
  | some _ => rfl
  | none => rfl

theorem source (h : t.Alike R u) : t.source = u.source := by
  rw [Tag.source, Tag.source, h.name, h.attrs]

theorem setProperties (h : t.Alike R u) (ps : List (String × String)) :
    (t.setProperties ps).Alike R (u.setProperties ps) := by
  induction ps generalizing t u with
  | nil => exact h
  | cons p ps ih =>
    refine ih ⟨h.name, ?_, h.selfClosing, h.origin⟩
    show Tag.setAttrIn p.1 p.2 t.attrs = Tag.setAttrIn p.1 p.2 u.attrs
    rw [h.attrs]

end Tag.Alike

theorem Alike.mapTags {f g : Tag → Tag} (h : ∀ t u, Tag.Alike R t u → (f t).Alike S (g u))
    (ha : Alike R ns ms) : Alike S (mapTags f ns) (mapTags g ms) := by
  induction ha with
  | nil => exact .nil
  | leaf hl _ ih =>
    rw [mapTags_leaf hl, mapTags_leaf hl]
    exact .leaf hl ih
  | element ht _ _ ihcs ihns => exact .element (h _ _ ht) ihcs ihns

theorem Alike.mono (h : ∀ o o', R o o' → S o o') (ha : Alike R ns ms) : Alike S ns ms := by
  induction ha with
  | nil => exact .nil
  | leaf hl _ ih => exact .leaf hl ih
  | element ht _ _ ihcs ihns => exact .element (ht.mono h) ihcs ihns

theorem Alike.refl (h : ∀ o, R o o) (ns : Forest) : Alike R ns ns := by
  induction ns using forest_induction with
  | nil => exact .nil
  | leaf n ns hl ih => exact .leaf hl ih
  | element t cs ns ihcs ihns => exact .element (.refl h t) ihcs ihns

theorem Alike.symm (h : ∀ o o', R o o' → S o' o) (ha : Alike R ns ms) : Alike S ms ns := by
  induction ha with
  | nil => exact .nil
  | leaf hl _ ih => exact .leaf hl ih
  | element ht _ _ ihcs ihns => exact .element (ht.symm h) ihcs ihns

theorem Alike.trans (h : ∀ o o' o'', R o o' → S o' o'' → T o o'') (ha : Alike R ns ms)
    (hb : Alike S ms ks) : Alike T ns ks := by
  induction ha generalizing ks with
  | nil =>
    cases hb
    exact .nil
  | leaf hl _ ih =>
    cases hb with
    | leaf _ hb => exact .leaf hl (ih hb)
    | element _ _ _ => cases hl
  | element ht _ _ ihcs ihns =>
    cases hb with
    | leaf hl _ => cases hl
    | element hu hcs hns => exact .element (ht.trans h hu) (ihcs hcs) (ihns hns)

/-! ## What does not look at origins -/

/-- What is said about the tags of alike forests is the same if it is so for alike tags. -/
theorem Alike.countP_tags {P Q : Tag → Bool} (h : ∀ t u, Tag.Alike R t u → P t = Q u)
    (ha : Alike R ns ms) : (tags ns).countP P = (tags ms).countP Q := by
  induction ha with
  | nil => rfl
  | leaf hl _ ih => rw [tags_leaf hl, tags_leaf hl, ih]
  | element ht _ _ ihcs ihns =>
    rw [tags_element, tags_element, List.countP_cons, List.countP_cons, List.countP_append,
      List.countP_append, ihcs, ihns, h _ _ ht]

theorem Alike.hasSlot (ha : Alike R ns ms) : hasSlot ns = hasSlot ms := by
  induction ha with
  | nil => rfl
  | leaf hl _ ih => rw [hasSlot_leaf hl, hasSlot_leaf hl, ih]
  | element ht _ _ ihcs ihns => rw [hasSlot_element, hasSlot_element, ht.is, ihcs, ihns]

theorem Alike.all_isBlank (ha : Alike R ns ms) : ns.all Node.isBlank = ms.all Node.isBlank := by
  induction ha with
  | nil => rfl
  | leaf _ _ ih => rw [List.all_cons, List.all_cons, ih]
  | element _ _ _ _ _ => rfl

theorem Alike.applyProperties (ha : Alike R ns ms) (m : Metadata) (tag : Tag) :
    Alike R (applyProperties m tag ns) (applyProperties m tag ms) := by
  induction ha with
  | nil => exact .nil
  | leaf hl _ ih =>
    rw [applyProperties_leaf hl, applyProperties_leaf hl]
    exact .leaf hl ih
  | element ht hcs _ _ ih => exact .element (ht.setProperties _) hcs ih

theorem Alike.isEmpty (ha : Alike R ns ms) : ns.isEmpty = ms.isEmpty := by
  cases ha with
  | nil => rfl
  | leaf _ _ => rfl
  | element _ _ _ => rfl

theorem Alike.source (ha : Alike R ns ms) : source ns = source ms := by
  induction ha with
  | nil => rfl
  | leaf _ _ ih => rw [Html.source, Html.source, ih]
  | element ht hcs _ ihcs ihns =>
    rw [source_element, source_element, ht.source, ht.name, ht.selfClosing, hcs.isEmpty, ihcs, ihns]

/-- Alike forests are written in the same way. -/
theorem Alike.serialize (ha : Alike R ns ms) : serialize ns = serialize ms := by
  rw [Html.serialize, Html.serialize, ha.source]

theorem Alike.stripScripts (ha : Alike R ns ms) : Alike R (stripScripts ns) (stripScripts ms) := by
  induction ha with
  | nil => exact .nil
  | leaf hl _ ih =>
    rw [stripScripts_leaf hl, stripScripts_leaf hl]
    exact .leaf hl ih
  | element ht hcs _ ihcs ihns =>
    rw [stripScripts_element, stripScripts_element, ht.is, ht.origin_isNone]
    split
    · split
      · exact .element ht hcs ihns
      · exact ihns
    · exact .element ht ihcs ihns

/-- Alike content for slots. -/
structure Filling.Alike (R : Origin → Origin → Prop) (f g : Filling) : Prop where
  first : Html.Alike R f.first g.first
  later : Html.Alike R f.later g.later

theorem Filling.Alike.next {f g : Filling} (h : f.Alike R g) (first : Bool) :
    Html.Alike R (f.next first) (g.next first) := by
  cases first with
  | true => exact h.first
  | false => exact h.later

/-- Slots are filled in the same way. -/
theorem Alike.fillSlots {content content' : Option Filling}
    (hc : Option.Rel (Filling.Alike R) content content') (first : Bool) (ha : Alike R ns ms) :
    Alike R (fillSlots content first ns).1 (fillSlots content' first ms).1 ∧
      (fillSlots content first ns).2 = (fillSlots content' first ms).2 := by
  induction ha generalizing first with
  | nil => exact ⟨.nil, rfl⟩
  | leaf hl _ ih =>
    obtain ⟨hns, hflag⟩ := ih first
    rw [fillSlots_leaf hl, fillSlots_leaf hl]
    exact ⟨.leaf hl hns, hflag⟩
  | @element t u _ _ _ _ ht hcs _ ihcs ihns =>
    rcases hs : t.is "slot" with _ | _
    · obtain ⟨hcs', hflag⟩ := ihcs first
      rw [fillSlots_element _ _ hs, fillSlots_element _ _ (ht.is "slot" ▸ hs), hflag]
      obtain ⟨hns', hflag'⟩ := ihns (Html.fillSlots content' first _).2
      exact ⟨.element ht hcs' hns', hflag'⟩
    · rw [fillSlots_slot _ _ hs, fillSlots_slot _ _ (ht.is "slot" ▸ hs)]
      cases hc with
      | none =>
        obtain ⟨hns', hflag⟩ := ihns first
        exact ⟨hcs.append hns', hflag⟩
      | some hf =>
        obtain ⟨hns', hflag⟩ := ihns false
        exact ⟨(hf.next first).append hns', hflag⟩

/-! ## Scripts of first instances -/

/-- Two registries emit scripts of the same components, of instances with related numbers. -/
def ScriptRegistry.Alike (K : UInt32 → UInt32 → Prop) (r r' : ScriptRegistry) : Prop :=
  ∀ p q : Path, p.same q = true → Option.Rel K (r.get? p) (r'.get? q)

/-- Origins of the same component, of instances with related numbers. -/
structure Origin.Alike (K : UInt32 → UInt32 → Prop) (o o' : Origin) : Prop where
  component : o.component.same o'.component = true
  number : K o.number o'.number

/-- The relation tells numbers apart on both sides. -/
def Separates (K : UInt32 → UInt32 → Prop) : Prop :=
  ∀ {a b a' b'}, K a a' → K b b' → (a = b ↔ a' = b')

section RetainFirst

variable {K : UInt32 → UInt32 → Prop} {r r' : ScriptRegistry}

theorem ScriptRegistry.Alike.empty : ScriptRegistry.Alike K PathMap.empty PathMap.empty :=
  fun _ _ _ => .none

theorem ScriptRegistry.Alike.hasEmitted (hr : ScriptRegistry.Alike K r r') {p q : Path}
    (h : p.same q = true) : r.hasEmitted p = r'.hasEmitted q := by
  have hpq := hr p q h
  rw [ScriptRegistry.hasEmitted, ScriptRegistry.hasEmitted, PathMap.contains, PathMap.contains]
  generalize r.get? p = a at hpq ⊢
  generalize r'.get? q = b at hpq ⊢
  cases hpq with
  | some _ => rfl
  | none => rfl

theorem ScriptRegistry.Alike.mark (hr : ScriptRegistry.Alike K r r') {o o' : Origin}
    (ho : o.Alike K o') : ScriptRegistry.Alike K (r.mark o) (r'.mark o') := by
  rw [ScriptRegistry.mark, ScriptRegistry.mark, hr.hasEmitted ho.component]
  split
  · exact hr
  · intro p q hpq
    have hs : o.component.same p = o'.component.same q := by
      rw [Path.same_congr hpq, Path.same_comm o.component, Path.same_comm o'.component,
        Path.same_congr ho.component]
    rw [PathMap.get?_insert, PathMap.get?_insert, hs]
    split
    · exact .some ho.number
    · exact hr p q hpq

theorem ScriptRegistry.Alike.emits (hK : Separates K) (hr : ScriptRegistry.Alike K r r')
    {o o' : Origin} (ho : o.Alike K o') : r.emits o = r'.emits o' := by
  have h := hr _ _ ho.component
  rw [ScriptRegistry.emits, ScriptRegistry.emits]
  generalize r.get? o.component = a at h ⊢
  generalize r'.get? o'.component = b at h ⊢
  cases h with
  | none => rfl
  | some h =>
    rw [Bool.eq_iff_iff, beq_iff_eq, beq_iff_eq, Option.some_inj, Option.some_inj]
    exact hK h ho.number

/-- Numbers of instances matter only as far as they are told apart. -/
theorem Alike.retainFirst (hK : Separates K) (ha : Alike (Origin.Alike K) ns ms)
    (hr : ScriptRegistry.Alike K r r') :
    Alike (Origin.Alike K) (retainFirst r ns).1 (retainFirst r' ms).1 ∧
      ScriptRegistry.Alike K (retainFirst r ns).2 (retainFirst r' ms).2 := by
  induction ha generalizing r r' with
  | nil => exact ⟨.nil, hr⟩
  | leaf hl _ ih =>
    obtain ⟨hns, hr'⟩ := ih hr
    rw [retainFirst_leaf hl, retainFirst_leaf hl]
    exact ⟨.leaf hl hns, hr'⟩
  | @element t u cs ds _ _ ht hcs _ ihcs ihns =>
    rw [retainFirst_element, retainFirst_element, ht.is]
    split
    · have ho := ht.origin
      generalize t.origin = a at ho ⊢
      generalize u.origin = b at ho ⊢
      cases ho with
      | none =>
        obtain ⟨hns, hr'⟩ := ihns hr
        exact ⟨.element ht hcs hns, hr'⟩
      | some ho =>
        obtain ⟨hns, hr'⟩ := ihns (hr.mark ho)
        dsimp only
        rw [(hr.mark ho).emits hK ho]
        split
        · exact ⟨.element ht hcs hns, hr'⟩
        · exact ⟨hns, hr'⟩
    · obtain ⟨hcs', hr'⟩ := ihcs hr
      obtain ⟨hns', hr''⟩ := ihns hr'
      exact ⟨.element ht hcs' hns', hr''⟩

end RetainFirst

end StaticSite.Html

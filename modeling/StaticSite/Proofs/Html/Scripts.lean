import StaticSite.Proofs.Html.Alike

/-!
# Counting scripts

Each operation on forests has one lemma that says how many elements of a kind it leaves. Scripts
hold nothing but text in all forests of a compile (`Flat`), so that no script is inside another one.

After `retainFirst` the scripts of a component all carry the number that the registry holds for it
(`Flat.retainFirst_number`), and they are as many as there were with that number.
-/

namespace StaticSite.Html

/-- Whether the element is a script of the component. -/
def Tag.isScriptOf (k : Path) (t : Tag) : Bool :=
  t.is "script" && t.origin.any (·.component.same k)

/-- Whether the element is a script of the instance of the component with this number. -/
def Tag.isNumbered (k : Path) (n : UInt32) (t : Tag) : Bool :=
  t.is "script" && t.origin.any fun o => o.component.same k && o.number == n

/-- Whether the element is a script that belongs to no component yet. -/
def Tag.isOwnScript (t : Tag) : Bool := t.is "script" && t.origin.isNone

/-- How many elements of a forest `P` picks. -/
def count (P : Tag → Bool) (ns : Forest) : Nat := (tags ns).countP P

theorem Tag.not_slot {t : Tag} (h : t.is "script" = true) : t.is "slot" = false := by
  rw [Tag.is, Text.sameName, beq_iff_eq] at h
  rw [Tag.is, Text.sameName, h]
  decide

theorem Tag.isScriptOf_iff {k : Path} {t : Tag} :
    t.isScriptOf k = true ↔
      t.is "script" = true ∧ ∃ o, t.origin = some o ∧ o.component.same k = true := by
  rw [Tag.isScriptOf, Bool.and_eq_true, Option.any_eq_true]

theorem Tag.isNumbered_le {k : Path} {n : UInt32} {t : Tag} (h : t.isNumbered k n = true) :
    t.isScriptOf k = true := by
  unfold Tag.isNumbered at h
  unfold Tag.isScriptOf
  rw [Bool.and_eq_true] at h ⊢
  refine ⟨h.1, ?_⟩
  have ho := h.2
  generalize t.origin = o at ho ⊢
  rcases o with _ | o
  · cases ho
  · exact (Bool.and_eq_true_iff.1 ho).1

section Count

variable {P Q : Tag → Bool}

theorem count_nil : count P [] = 0 := rfl

theorem count_leaf {n : Node} (h : n.isLeaf = true) (ns : Forest) :
    count P (n :: ns) = count P ns := by
  rw [count, tags_leaf h, count]

theorem count_element (t : Tag) (cs ns : Forest) :
    count P (.element t cs :: ns) = (if P t then 1 else 0) + (count P cs + count P ns) := by
  rw [count, tags_element, List.countP_cons, List.countP_append, Nat.add_comm]
  rfl

theorem count_append (ns ms : Forest) : count P (ns ++ ms) = count P ns + count P ms := by
  induction ns using forest_induction with
  | nil => exact (Nat.zero_add _).symm
  | leaf n ns hl ih => rw [List.cons_append, count_leaf hl, count_leaf hl, ih]
  | element t cs ns _ ih =>
    rw [List.cons_append, count_element, count_element, ih]
    omega

theorem count_leaves {ns : Forest} (h : ∀ n ∈ ns, n.isLeaf = true) : count P ns = 0 := by
  induction ns with
  | nil => rfl
  | cons n ns ih =>
    obtain ⟨hn, hns⟩ := List.forall_mem_cons.1 h
    rw [count_leaf hn, ih hns]

theorem count_mapTags (f : Tag → Tag) (ns : Forest) :
    count P (mapTags f ns) = count (fun t => P (f t)) ns := by
  induction ns using forest_induction with
  | nil => rfl
  | leaf n ns hl ih => rw [mapTags_leaf hl, count_leaf hl, count_leaf hl, ih]
  | element t cs ns ihcs ihns => rw [mapTags_element, count_element, count_element, ihcs, ihns]

/-- Elements that are of one of two kinds, which exclude each other. -/
theorem count_or (h : ∀ t, P t = true → Q t = false) (ns : Forest) :
    count (fun t => P t || Q t) ns = count P ns + count Q ns := by
  induction ns using forest_induction with
  | nil => rfl
  | leaf n ns hl ih => rw [count_leaf hl, count_leaf hl, count_leaf hl, ih]
  | element t cs ns ihcs ihns =>
    rw [count_element, count_element, count_element, ihcs, ihns]
    rcases hP : P t with _ | _
    · rw [Bool.false_or, if_neg Bool.false_ne_true]
      omega
    · rw [h t hP, Bool.true_or, if_pos rfl, if_neg Bool.false_ne_true]
      omega

/-- Numbers of instances do not matter for the components that scripts belong to. -/
theorem Alike.count_isScriptOf {K : UInt32 → UInt32 → Prop} {ns ms : Forest}
    (h : Alike (Origin.Alike K) ns ms) (k : Path) :
    count (·.isScriptOf k) ns = count (·.isScriptOf k) ms := by
  refine h.countP_tags fun t u htu => ?_
  have ho := htu.origin
  rw [Tag.isScriptOf, Tag.isScriptOf, htu.is]
  generalize t.origin = a at ho ⊢
  generalize u.origin = b at ho ⊢
  cases ho with
  | none => rfl
  | some ho =>
    rw [Option.any_some, Option.any_some, Path.same_comm _ k, Path.same_comm _ k,
      Path.same_congr ho.component]

theorem Tag.setProperties_is (t : Tag) (ps : List (String × String)) (name : String) :
    (t.setProperties ps).is name = t.is name := by
  induction ps generalizing t with
  | nil => rfl
  | cons p ps ih => exact ih (t.setAttr p.1 p.2)

theorem Tag.setProperties_origin (t : Tag) (ps : List (String × String)) :
    (t.setProperties ps).origin = t.origin := by
  induction ps generalizing t with
  | nil => rfl
  | cons p ps ih => exact ih (t.setAttr p.1 p.2)

theorem Tag.tagScript_is (p : Path) (t : Tag) (name : String) :
    (t.tagScript p).is name = t.is name := by
  rw [Tag.tagScript]
  split
  · rfl
  · rfl

/-- A script without origin becomes one of the component, and the others stay what they are. -/
theorem Tag.isScriptOf_tagScript (k p : Path) (t : Tag) :
    (t.tagScript p).isScriptOf k = (t.isScriptOf k || (p.same k && t.isOwnScript)) := by
  rw [Tag.isScriptOf, Tag.tagScript_is, Tag.tagScript, Tag.isScriptOf, Tag.isOwnScript]
  rcases t.is "script" with _ | _
  · simp
  · rcases ho : t.origin with _ | o
    · simp
    · simp [ho]

theorem Tag.isOwnScript_of_isScriptOf {k : Path} {t : Tag} (h : t.isScriptOf k = true) :
    t.isOwnScript = false := by
  obtain ⟨-, o, ho, -⟩ := Tag.isScriptOf_iff.1 h
  rw [Tag.isOwnScript, ho]
  exact Bool.and_false _

theorem count_tagScripts (k p : Path) (ns : Forest) :
    count (·.isScriptOf k) (tagScripts p ns) =
      count (·.isScriptOf k) ns + if p.same k then count Tag.isOwnScript ns else 0 := by
  unfold tagScripts
  rw [count_mapTags]
  simp only [Tag.isScriptOf_tagScript]
  rcases p.same k with _ | _
  · simp only [Bool.false_and, Bool.or_false]
    rfl
  · simp only [Bool.true_and, if_true]
    exact count_or (fun t => Tag.isOwnScript_of_isScriptOf) ns

/-- All that comes from a component gets the number of the instance. -/
theorem count_stamp (k : Path) (n number : UInt32) (ns : Forest) :
    count (·.isNumbered k n) (stampInstance number ns) =
      if number = n then count (·.isScriptOf k) ns else 0 := by
  have hstamp : ∀ t : Tag, (t.stamp number).isNumbered k n = (t.isScriptOf k && number == n) := by
    intro t
    rw [Tag.isNumbered, Tag.isScriptOf, Tag.stamp]
    change (t.is "script" && _) = (t.is "script" && _ && _)
    rcases t.origin with _ | o
    · simp
    · simp [Bool.and_assoc]
  unfold stampInstance
  rw [count_mapTags]
  simp only [hstamp]
  split
  · rename_i h
    simp only [beq_iff_eq.2 h, Bool.and_true]
  · rename_i h
    simp only [beq_eq_false_iff_ne.2 h, Bool.and_false]
    exact List.countP_eq_zero.2 fun _ _ => Bool.false_ne_true

theorem count_applyProperties (hP : ∀ t ps, P (Tag.setProperties t ps) = P t) (m : Metadata)
    (tag : Tag) (ns : Forest) : count P (applyProperties m tag ns) = count P ns := by
  induction ns using forest_induction with
  | nil => rfl
  | leaf n ns hl ih => rw [applyProperties_leaf hl, count_leaf hl, count_leaf hl, ih]
  | element t cs ns _ ih => rw [applyProperties_element, count_element, count_element, ih, hP]

/-- Without content, an instance has no more elements than its component. -/
theorem count_fill_none_le (first : Bool) (ns : Forest) :
    count P (fillSlots none first ns).1 ≤ count P ns := by
  induction ns using forest_induction generalizing first with
  | nil => exact Nat.le_refl _
  | leaf n ns hl ih =>
    rw [fillSlots_leaf hl, count_leaf hl, count_leaf hl]
    exact ih first
  | element t cs ns ihcs ihns =>
    rcases hs : t.is "slot" with _ | _
    · rw [fillSlots_element _ _ hs, count_element, count_element]
      have hcs := ihcs first
      have hns := ihns (fillSlots none first cs).2
      omega
    · rw [fillSlots_slot _ _ hs, count_append, count_element]
      have hns := ihns first
      omega

/-- With content, an instance has the elements of its component and of the first copy of the content
at most, if the other copies have none. -/
theorem count_fill_some_le {f : Filling} (hf : count P f.later = 0) (first : Bool) (ns : Forest) :
    count P (fillSlots (some f) first ns).1 + count P (f.next (fillSlots (some f) first ns).2) ≤
      count P ns + count P (f.next first) := by
  induction ns using forest_induction generalizing first with
  | nil => exact Nat.le_refl _
  | leaf n ns hl ih =>
    rw [fillSlots_leaf hl, count_leaf hl, count_leaf hl]
    exact ih first
  | element t cs ns ihcs ihns =>
    rcases hs : t.is "slot" with _ | _
    · rw [fillSlots_element _ _ hs, count_element, count_element]
      have hcs := ihcs first
      have hns := ihns (fillSlots (some f) first cs).2
      dsimp only
      omega
    · rw [fillSlots_slot _ _ hs, count_element]
      have hns := ihns false
      have hlater : count P (f.next false) = 0 := hf
      dsimp only
      rw [count_append]
      omega

theorem count_retainFirst_le (r : ScriptRegistry) (ns : Forest) :
    count P (retainFirst r ns).1 ≤ count P ns := by
  induction ns using forest_induction generalizing r with
  | nil => exact Nat.le_refl _
  | leaf n ns hl ih =>
    rw [retainFirst_leaf hl, count_leaf hl, count_leaf hl]
    exact ih r
  | element t cs ns ihcs ihns =>
    rw [retainFirst_element, count_element]
    split
    · split
      · rw [count_element]
        have hns := ihns r
        omega
      · rename_i o _
        have hns := ihns (r.mark o)
        split
        · rw [count_element]
          omega
        · omega
    · rw [count_element]
      have hcs := ihcs r
      have hns := ihns (retainFirst r cs).2
      omega

end Count

/-! ## Scripts hold nothing but text -/

/-- A forest in which scripts hold no elements. -/
inductive Flat : Forest → Prop where
  | nil : Flat []
  | leaf {n : Node} {ns : Forest} (h : n.isLeaf = true) (hns : Flat ns) : Flat (n :: ns)
  | script {t : Tag} {cs ns : Forest} (ht : t.is "script" = true)
      (hcs : ∀ n ∈ cs, n.isLeaf = true) (hns : Flat ns) : Flat (.element t cs :: ns)
  | element {t : Tag} {cs ns : Forest} (ht : t.is "script" = false) (hcs : Flat cs)
      (hns : Flat ns) : Flat (.element t cs :: ns)

namespace Flat

variable {ns ms : Forest}

theorem leaves (h : ∀ n ∈ ns, n.isLeaf = true) : Flat ns := by
  induction ns with
  | nil => exact .nil
  | cons n ns ih =>
    obtain ⟨hn, hns⟩ := List.forall_mem_cons.1 h
    exact .leaf hn (ih hns)

theorem append (h : Flat ns) (h' : Flat ms) : Flat (ns ++ ms) := by
  induction h with
  | nil => exact h'
  | leaf hl _ ih => exact .leaf hl ih
  | script ht hcs _ ih => exact .script ht hcs ih
  | element ht hcs _ _ ih => exact .element ht hcs ih

theorem mapTags {f : Tag → Tag} (hf : ∀ t, (f t).is "script" = t.is "script") (h : Flat ns) :
    Flat (mapTags f ns) := by
  induction h with
  | nil => exact .nil
  | leaf hl _ ih =>
    rw [mapTags_leaf hl]
    exact .leaf hl ih
  | script ht hcs _ ih =>
    refine .script ((hf _).trans ht) ?_ ih
    rwa [mapTags_leaves hcs]
  | element ht _ _ ihcs ihns => exact .element ((hf _).trans ht) ihcs ihns

theorem applyProperties (m : Metadata) (tag : Tag) (h : Flat ns) :
    Flat (applyProperties m tag ns) := by
  induction h with
  | nil => exact .nil
  | leaf hl _ ih =>
    rw [applyProperties_leaf hl]
    exact .leaf hl ih
  | script ht hcs _ ih => exact .script ((Tag.setProperties_is _ _ _).trans ht) hcs ih
  | element ht hcs _ _ ih => exact .element ((Tag.setProperties_is _ _ _).trans ht) hcs ih

theorem stripScripts (h : Flat ns) : Flat (stripScripts ns) := by
  induction h with
  | nil => exact .nil
  | leaf hl _ ih =>
    rw [stripScripts_leaf hl]
    exact .leaf hl ih
  | script ht hcs _ ih =>
    rw [stripScripts_element, if_pos ht]
    split
    · exact .script ht hcs ih
    · exact ih
  | element ht _ _ ihcs ihns =>
    rw [stripScripts_element, if_neg (by simp [ht])]
    exact .element ht ihcs ihns

theorem retainFirst (r : ScriptRegistry) (h : Flat ns) : Flat (retainFirst r ns).1 := by
  induction h generalizing r with
  | nil => exact .nil
  | leaf hl _ ih =>
    rw [retainFirst_leaf hl]
    exact .leaf hl (ih r)
  | script ht hcs _ ih =>
    rw [retainFirst_element, if_pos ht]
    split
    · exact .script ht hcs (ih r)
    · split
      · exact .script ht hcs (ih _)
      · exact ih _
  | element ht _ _ ihcs ihns =>
    rw [retainFirst_element, if_neg (by simp [ht])]
    exact .element ht (ihcs r) (ihns _)

/-- Slots are filled with flat content only. -/
theorem fillSlots {content : Option Filling} (hc : ∀ f ∈ content, Flat f.first ∧ Flat f.later)
    (first : Bool) (h : Flat ns) : Flat (fillSlots content first ns).1 := by
  induction h generalizing first with
  | nil => exact .nil
  | leaf hl _ ih =>
    rw [fillSlots_leaf hl]
    exact .leaf hl (ih first)
  | script ht hcs _ ih =>
    rw [fillSlots_element _ _ (Tag.not_slot ht), fillSlots_leaves hcs]
    exact .script ht hcs (ih _)
  | @element t cs _ ht hcs _ ihcs ihns =>
    rcases hs : t.is "slot" with _ | _
    · rw [fillSlots_element _ _ hs]
      exact .element ht (ihcs first) (ihns _)
    · rw [fillSlots_slot _ _ hs]
      rcases content with _ | f
      · exact hcs.append (ihns first)
      · obtain ⟨hfirst, hlater⟩ := hc f rfl
        refine Flat.append ?_ (ihns false)
        cases first with
        | true => exact hfirst
        | false => exact hlater

/-- Nothing that comes from a component is left by `stripScripts`. -/
theorem count_stripScripts {P : Tag → Bool}
    (hP : ∀ t, P t = true → t.is "script" = true ∧ t.origin.isNone = false) (h : Flat ns) :
    count P (Html.stripScripts ns) = 0 := by
  induction h with
  | nil => rfl
  | leaf hl _ ih => rw [stripScripts_leaf hl, count_leaf hl, ih]
  | @script t cs _ ht hcs _ ih =>
    rw [stripScripts_element, if_pos ht]
    split
    · rename_i ho
      have hPt : P t = false := Bool.eq_false_iff.2 fun h => by simp [(hP t h).2] at ho
      rw [count_element, hPt, count_leaves hcs, ih]
      rfl
    · exact ih
  | @element t _ _ ht _ _ ihcs ihns =>
    have hPt : P t = false := Bool.eq_false_iff.2 fun h => by simp [(hP t h).1] at ht
    rw [stripScripts_element, if_neg (by simp [ht]), count_element, hPt, ihcs, ihns]
    rfl

end Flat

/-! ## Scripts of first instances -/

section RetainFirst

variable {r : ScriptRegistry} {k : Path} {ns : Forest}

theorem get?_mark (r : ScriptRegistry) (o : Origin) (p : Path) :
    PathMap.get? (r.mark o) p =
      if r.hasEmitted o.component = false ∧ o.component.same p = true then some o.number
      else PathMap.get? r p := by
  unfold ScriptRegistry.mark
  rcases r.hasEmitted o.component with _ | _
  · rw [if_neg Bool.false_ne_true, PathMap.get?_insert]
    simp
  · rw [if_pos rfl]
    simp

theorem hasEmitted_eq (r : ScriptRegistry) (p : Path) :
    r.hasEmitted p = (PathMap.get? r p).isSome := rfl

theorem get?_mark_of_some {n : UInt32} (h : PathMap.get? r k = some n) (o : Origin) :
    PathMap.get? (r.mark o) k = some n := by
  rw [get?_mark, if_neg, h]
  rintro ⟨hr, hk⟩
  rw [hasEmitted_eq, PathMap.get?_congr hk, h] at hr
  cases hr

theorem get?_mark_of_not_same {o : Origin} (h : o.component.same k = false) :
    PathMap.get? (r.mark o) k = PathMap.get? r k := by
  rw [get?_mark, if_neg]
  rintro ⟨-, hk⟩
  rw [h] at hk
  cases hk

/-- The first instance of a component is the one that the page emits. -/
theorem emits_mark_of_none {o : Origin} (hr : PathMap.get? r k = none)
    (h : o.component.same k = true) : (r.mark o).emits o = true := by
  have hemitted : r.hasEmitted o.component = false := by
    rw [hasEmitted_eq, PathMap.get?_congr h, hr]
    rfl
  rw [ScriptRegistry.emits, get?_mark, if_pos ⟨hemitted, Path.same_refl _⟩]
  exact beq_self_eq_true _

/-- What a registry holds stays. -/
theorem get?_retainFirst {n : UInt32} (h : PathMap.get? r k = some n) :
    PathMap.get? (retainFirst r ns).2 k = some n := by
  induction ns using forest_induction generalizing r with
  | nil => exact h
  | leaf m ns hl ih =>
    rw [retainFirst_leaf hl]
    exact ih h
  | element t cs ns ihcs ihns =>
    rw [retainFirst_element]
    split
    · split
      · exact ihns h
      · split
        · exact ihns (get?_mark_of_some h _)
        · exact ihns (get?_mark_of_some h _)
    · exact ihns (ihcs h)

/-- A component is not entered into the registry without scripts. -/
theorem get?_retainFirst_of_count (hk : count (·.isScriptOf k) ns = 0)
    (hr : PathMap.get? r k = none) : PathMap.get? (retainFirst r ns).2 k = none := by
  induction ns using forest_induction generalizing r with
  | nil => exact hr
  | leaf m ns hl ih =>
    rw [count_leaf hl] at hk
    rw [retainFirst_leaf hl]
    exact ih hk hr
  | element t cs ns ihcs ihns =>
    rw [count_element] at hk
    have hcs : count (·.isScriptOf k) cs = 0 := by omega
    have hns : count (·.isScriptOf k) ns = 0 := by omega
    rw [retainFirst_element]
    split
    · rename_i ht
      split
      · exact ihns hns hr
      · rename_i o ho
        have hsame : o.component.same k = false := by
          rw [Bool.eq_false_iff]
          intro h
          have hP : t.isScriptOf k = true := by
            rw [Tag.isScriptOf, ht, ho]
            exact h
          rw [hP] at hk
          simp at hk
        have hr' : PathMap.get? (r.mark o) k = none := (get?_mark_of_not_same hsame).trans hr
        split
        · exact ihns hns hr'
        · exact ihns hns hr'
    · exact ihns hns (ihcs hcs hr)

/-- Of a component that is not in the registry, a script is kept if there is one. -/
theorem Flat.retainFirst_keeps (h : Flat ns) (hr : PathMap.get? r k = none)
    (hk : 0 < count (·.isScriptOf k) ns) :
    0 < count (·.isScriptOf k) (Html.retainFirst r ns).1 := by
  induction h generalizing r with
  | nil => exact hk
  | leaf hl _ ih =>
    rw [count_leaf hl] at hk
    rw [retainFirst_leaf hl, count_leaf hl]
    exact ih hr hk
  | @script t cs ns ht hcs _ ih =>
    rw [count_element, count_leaves hcs] at hk
    rw [retainFirst_element, if_pos ht]
    rcases ho : t.origin with _ | o
    · have hP : t.isScriptOf k = false := by
        rw [Tag.isScriptOf, ho, ht]
        rfl
      rw [hP] at hk
      dsimp only
      rw [count_element, hP, count_leaves hcs]
      have := ih hr (by simpa using hk)
      omega
    · have hP : t.isScriptOf k = o.component.same k := by
        rw [Tag.isScriptOf, ho, ht]
        rfl
      rw [hP] at hk
      dsimp only
      rcases hsame : o.component.same k with _ | _
      · rw [hsame] at hk
        have := ih ((get?_mark_of_not_same hsame).trans hr) (by simpa using hk)
        split
        · rw [count_element]
          omega
        · exact this
      · rw [if_pos (emits_mark_of_none hr hsame), count_element, hP, hsame, if_pos rfl]
        omega
  | @element t cs ns ht _ _ ihcs ihns =>
    have hP : t.isScriptOf k = false := by
      rw [Tag.isScriptOf, ht]
      rfl
    rw [count_element, hP] at hk
    rw [retainFirst_element, if_neg (by simp [ht]), count_element]
    by_cases hcs : 0 < count (·.isScriptOf k) cs
    · have := ihcs hr hcs
      omega
    · have hnone := get?_retainFirst_of_count (Nat.eq_zero_of_not_pos hcs) hr
      have := ihns hnone (by simp at hk; omega)
      omega

/-- The scripts that are kept carry the numbers that the registry holds. -/
theorem Flat.retainFirst_number (h : Flat ns) {t : Tag} (ht : t ∈ tags (Html.retainFirst r ns).1)
    (hs : t.is "script" = true) {o : Origin} (ho : t.origin = some o) :
    PathMap.get? (Html.retainFirst r ns).2 o.component = some o.number := by
  induction h generalizing r with
  | nil => cases ht
  | leaf hl _ ih =>
    rw [retainFirst_leaf hl] at ht ⊢
    rw [tags_leaf hl] at ht
    exact ih ht
  | @script u cs ns hu hcs _ ih =>
    rw [retainFirst_element, if_pos hu] at ht ⊢
    rcases huo : u.origin with _ | o'
    · rw [huo] at ht
      dsimp only at ht ⊢
      rw [tags_element, tags_leaves hcs, List.nil_append, List.mem_cons] at ht
      rcases ht with rfl | ht
      · rw [ho] at huo
        cases huo
      · exact ih ht
    · rw [huo] at ht
      dsimp only at ht ⊢
      split at ht
      · rename_i hemits
        rw [if_pos hemits]
        rw [tags_element, tags_leaves hcs, List.nil_append, List.mem_cons] at ht
        rcases ht with rfl | ht
        · rw [ho, Option.some_inj] at huo
          subst huo
          exact get?_retainFirst (beq_iff_eq.1 hemits)
        · exact ih ht
      · rename_i hemits
        rw [if_neg hemits]
        exact ih ht
  | @element u cs ns hu _ _ ihcs ihns =>
    rw [retainFirst_element, if_neg (by simp [hu])] at ht ⊢
    rw [tags_element, List.mem_cons, List.mem_append] at ht
    rcases ht with rfl | ht | ht
    · rw [hu] at hs
      cases hs
    · exact get?_retainFirst (ihcs ht)
    · exact ihns ht

/-- What belongs to no component is kept. -/
theorem Flat.count_retainFirst_own (h : Flat ns) (r : ScriptRegistry) :
    count Tag.isOwnScript (Html.retainFirst r ns).1 = count Tag.isOwnScript ns := by
  induction h generalizing r with
  | nil => rfl
  | leaf hl _ ih => rw [retainFirst_leaf hl, count_leaf hl, count_leaf hl, ih]
  | @script t cs ns ht hcs _ ih =>
    rw [retainFirst_element, if_pos ht, count_element, count_leaves hcs]
    rcases ho : t.origin with _ | o
    · dsimp only
      rw [count_element, count_leaves hcs, ih]
    · have hP : t.isOwnScript = false := by
        rw [Tag.isOwnScript, ho]
        exact Bool.and_false _
      dsimp only
      split
      · rw [count_element, count_leaves hcs, ih]
      · rw [ih, hP, if_neg Bool.false_ne_true]
        omega
  | element ht _ _ ihcs ihns =>
    rw [retainFirst_element, if_neg (by simp [ht]), count_element, count_element, ihcs, ihns]

/-- The scripts of a component that are kept are as many as one of its instances has. -/
theorem Flat.count_retainFirst_le (h : Flat ns) {b : Nat}
    (hb : ∀ n, count (·.isNumbered k n) ns ≤ b) :
    count (·.isScriptOf k) (Html.retainFirst r ns).1 ≤ b := by
  rcases hk : PathMap.get? (Html.retainFirst r ns).2 k with _ | n
  · have hnone : count (·.isScriptOf k) (Html.retainFirst r ns).1 = 0 := by
      rw [count, List.countP_eq_zero]
      intro t ht hP
      obtain ⟨hs, o, ho, hsame⟩ := Tag.isScriptOf_iff.1 hP
      have := h.retainFirst_number ht hs ho
      rw [PathMap.get?_congr hsame, hk] at this
      cases this
    omega
  · refine Nat.le_trans ?_ (Nat.le_trans (Html.count_retainFirst_le r ns) (hb n))
    refine Nat.le_of_eq (List.countP_congr (q := Tag.isNumbered k n) fun t ht => ?_)
    refine ⟨fun hP => ?_, Tag.isNumbered_le⟩
    obtain ⟨hs, o, ho, hsame⟩ := Tag.isScriptOf_iff.1 hP
    have hnumber := h.retainFirst_number ht hs ho
    rw [PathMap.get?_congr hsame, hk, Option.some_inj] at hnumber
    rw [Tag.isNumbered, hs, ho, Option.any_some, hsame, hnumber, beq_self_eq_true]
    rfl

end RetainFirst

end StaticSite.Html

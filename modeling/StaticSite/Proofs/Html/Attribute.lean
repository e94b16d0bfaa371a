import Mathlib.Data.List.Forall2
import StaticSite.Proofs.Html.Every

/-!
# Setting attributes

An attribute that an element has is set in place: the names of the attributes stay, in their order,
and only its own value changes (`Revalued`). One that it does not have is added behind the others
(`Grown`). Setting an attribute to the value that it has changes nothing.

`Tagwise T` relates forests of the same shape and with the same leaves by their tags.
-/

namespace StaticSite.Html

open Text

theorem sameName_refl (a : String) : sameName a a = true := beq_self_eq_true _

theorem sameName_comm (a b : String) : sameName a b = sameName b a := by
  rw [Bool.eq_iff_iff, sameName, sameName, beq_iff_eq, beq_iff_eq, eq_comm]

theorem sameName_congr {a b : String} (h : sameName a b = true) (d : String) :
    sameName d a = sameName d b := by
  rw [sameName_comm, sameName_trans h, sameName_comm]

/-- The attributes have the same names in the same order, and the same values but for those whose
names are among `keys`. -/
def Revalued (keys : List String) (as bs : List (String × String)) : Prop :=
  List.Forall₂ (fun a b => b.1 = a.1 ∧ (b.2 ≠ a.2 → keys.any (sameName a.1) = true)) as bs

namespace Revalued

variable {keys keys' : List String} {as bs cs : List (String × String)}

theorem refl (keys : List String) (as : List (String × String)) : Revalued keys as as :=
  List.forall₂_same.2 fun _ _ => ⟨rfl, fun h => absurd rfl h⟩

theorem mono (hkeys : ∀ k ∈ keys, k ∈ keys') (h : Revalued keys as bs) : Revalued keys' as bs := by
  refine h.imp fun _ _ hab => ⟨hab.1, fun hne => ?_⟩
  obtain ⟨k, hk, hname⟩ := List.any_eq_true.1 (hab.2 hne)
  exact List.any_eq_true.2 ⟨k, hkeys k hk, hname⟩

theorem trans (h : Revalued keys as bs) (h' : Revalued keys bs cs) : Revalued keys as cs := by
  induction h generalizing cs with
  | nil => exact h'
  | @cons a b _ _ hab _ ih =>
    cases h' with
    | cons hbc h' =>
      refine .cons ⟨hbc.1.trans hab.1, fun hne => ?_⟩ (ih h')
      by_cases hb : b.2 = a.2
      · rw [← hab.1]
        exact hbc.2 fun h => hne (h.trans hb)
      · exact hab.2 hb

theorem setAttrIn {key : String} (value : String)
    (h : (as.find? fun a => sameName a.1 key).isSome = true) :
    Revalued [key] as (Tag.setAttrIn key value as) := by
  induction as with
  | nil => cases h
  | cons a as ih =>
    rw [Tag.setAttrIn]
    split
    · rename_i ha
      refine .cons ⟨rfl, fun _ => ?_⟩ (refl _ _)
      rw [List.any_cons, ha, Bool.true_or]
    · rename_i ha
      rw [List.find?_cons, Bool.eq_false_iff.2 ha] at h
      exact .cons ⟨rfl, fun h => absurd rfl h⟩ (ih h)

end Revalued

namespace Tag

theorem attr?_setAttr_self (t : Tag) (key value : String) :
    (t.setAttr key value).attr? key = some value := by
  rw [attr?, setAttr]
  show ((setAttrIn key value t.attrs).find? fun a => sameName a.1 key).map (·.2) = _
  induction t.attrs with
  | nil => rw [setAttrIn, List.find?_cons, sameName_refl, Option.map_some]
  | cons a attrs ih =>
    rw [setAttrIn]
    split
    · rename_i ha
      rw [List.find?_cons, ha, Option.map_some]
    · rename_i ha
      rw [List.find?_cons, Bool.eq_false_iff.2 ha]
      exact ih

/-- An attribute that has the value already stays as it is. -/
theorem setAttr_eq_self {t : Tag} {key value : String} (h : t.attr? key = some value) :
    t.setAttr key value = t := by
  obtain ⟨name, attrs, selfClosing, origin⟩ := t
  change (attrs.find? fun a => sameName a.1 key).map (·.2) = some value at h
  have hattrs : setAttrIn key value attrs = attrs := by
    induction attrs with
    | nil => cases h
    | cons a attrs ih =>
      rw [setAttrIn]
      rw [List.find?_cons] at h
      split
      · rename_i ha
        rw [ha, Option.map_some, Option.some_inj] at h
        rw [← h]
      · rename_i ha
        rw [Bool.eq_false_iff.2 ha] at h
        rw [ih h]
  rw [setAttr, hattrs]

theorem attr?_congr {a b : String} (h : sameName a b = true) (t : Tag) : t.attr? a = t.attr? b := by
  rw [attr?, attr?]
  simp only [sameName_congr h]

theorem attr?_setAttr_eq (t : Tag) (key value name : String) :
    (t.setAttr key value).attr? name = if sameName key name then some value else t.attr? name := by
  split
  · rename_i h
    rw [← attr?_congr h, attr?_setAttr_self]
  · rename_i h
    exact attr?_setAttr (Bool.eq_false_iff.2 h) t value

/-- Of two values for one attribute the later one counts. -/
theorem setAttr_setAttr {t : Tag} {key name : String} (h : sameName key name = true)
    (ht : (t.attr? key).isSome = true) (value value' : String) :
    (t.setAttr key value).setAttr name value' = t.setAttr name value' := by
  obtain ⟨tagName, attrs, selfClosing, origin⟩ := t
  change ((attrs.find? fun a => sameName a.1 key).map Prod.snd).isSome = true at ht
  have hattrs : setAttrIn name value' (setAttrIn key value attrs) =
      setAttrIn name value' attrs := by
    induction attrs with
    | nil => cases ht
    | cons a attrs ih =>
      rcases ha : sameName a.1 key with _ | _
      · have hname : sameName a.1 name = false := by rw [← sameName_congr h, ha]
        rw [List.find?_cons, ha] at ht
        rw [setAttrIn, ha, if_neg Bool.false_ne_true, setAttrIn, hname, if_neg Bool.false_ne_true,
          setAttrIn, hname, if_neg Bool.false_ne_true, ih ht]
      · have hname : sameName a.1 name = true := by rw [← sameName_congr h, ha]
        rw [setAttrIn, if_pos ha, setAttrIn, if_pos hname, setAttrIn, if_pos hname]
  exact congrArg (fun attrs => Tag.mk tagName attrs selfClosing origin) hattrs

/-- Different attributes, of which one is there, can be set in any order. -/
theorem setAttr_comm {t : Tag} {key name : String} (h : sameName key name = false)
    (ht : (t.attr? key).isSome = true) (value value' : String) :
    (t.setAttr key value).setAttr name value' = (t.setAttr name value').setAttr key value := by
  obtain ⟨tagName, attrs, selfClosing, origin⟩ := t
  change ((attrs.find? fun a => sameName a.1 key).map Prod.snd).isSome = true at ht
  have hattrs : setAttrIn name value' (setAttrIn key value attrs) =
      setAttrIn key value (setAttrIn name value' attrs) := by
    induction attrs with
    | nil => cases ht
    | cons a attrs ih =>
      rcases ha : sameName a.1 key with _ | _
      · rw [List.find?_cons, ha] at ht
        rcases hname : sameName a.1 name with _ | _
        · simp only [setAttrIn, ha, hname, Bool.false_eq_true, if_false, ih ht]
        · simp only [setAttrIn, ha, hname, Bool.false_eq_true, if_false, if_true]
      · have hname : sameName a.1 name = false := (sameName_trans ha).trans h
        simp only [setAttrIn, ha, hname, Bool.false_eq_true, if_false, if_true]
  exact congrArg (fun attrs => Tag.mk tagName attrs selfClosing origin) hattrs

end Tag

/-- Attributes whose names are among `keys` may have other values, or stand behind the others; all
else is as it was. -/
def Grown (keys : List String) (as cs : List (String × String)) : Prop :=
  ∃ bs added, cs = bs ++ added ∧ Revalued keys as bs ∧ ∀ a ∈ added, a.1 ∈ keys

theorem Revalued.names_eq {keys : List String} {as bs : List (String × String)}
    (h : Revalued keys as bs) : bs.map Prod.fst = as.map Prod.fst := by
  induction h with
  | nil => rfl
  | cons hab _ ih => rw [List.map_cons, List.map_cons, hab.1, ih]

theorem Revalued.append_left {keys : List String} {as bs cs : List (String × String)}
    (h : Revalued keys (as ++ bs) cs) :
    ∃ ds es, cs = ds ++ es ∧ Revalued keys as ds ∧ Revalued keys bs es := by
  induction as generalizing cs with
  | nil => exact ⟨[], cs, rfl, .nil, h⟩
  | cons a as ih =>
    cases h with
    | cons ha h =>
      obtain ⟨ds, es, rfl, hds, hes⟩ := ih h
      exact ⟨_ :: ds, es, rfl, .cons ha hds, hes⟩

namespace Grown

variable {keys : List String} {as bs cs : List (String × String)}

theorem refl (keys : List String) (as : List (String × String)) : Grown keys as as :=
  ⟨as, [], (List.append_nil as).symm, .refl keys as, fun _ h => by cases h⟩

theorem trans (h : Grown keys as bs) (h' : Grown keys bs cs) : Grown keys as cs := by
  obtain ⟨bs, added, rfl, hbs, hadded⟩ := h
  obtain ⟨ds, added', rfl, hds, hadded'⟩ := h'
  obtain ⟨ds, es, rfl, hds, hes⟩ := hds.append_left
  refine ⟨ds, es ++ added', List.append_assoc .., hbs.trans hds,
    List.forall_mem_append.2 ⟨fun e he => ?_, hadded'⟩⟩
  obtain ⟨a, ha, hname⟩ := List.mem_map.1 (hes.names_eq ▸ List.mem_map_of_mem he)
  exact hname ▸ hadded a ha

theorem setAttrIn {key : String} (hkey : key ∈ keys) (value : String)
    (as : List (String × String)) : Grown keys as (Tag.setAttrIn key value as) := by
  induction as with
  | nil => exact ⟨[], [(key, value)], rfl, .nil, fun a ha => List.mem_singleton.1 ha ▸ hkey⟩
  | cons a as ih =>
    rw [Tag.setAttrIn]
    split
    · rename_i ha
      exact ⟨(a.1, value) :: as, [], (List.append_nil _).symm,
        .cons ⟨rfl, fun _ => List.any_eq_true.2 ⟨key, hkey, ha⟩⟩ (Revalued.refl keys as),
        fun _ h => by cases h⟩
    · obtain ⟨bs, added, hcs, hbs, hadded⟩ := ih
      exact ⟨a :: bs, added, by rw [hcs, List.cons_append],
        .cons ⟨rfl, fun h => absurd rfl h⟩ hbs, hadded⟩

end Grown

/-- Forests of the same shape, with the same leaves, and with related tags. -/
inductive Tagwise (T : Tag → Tag → Prop) : Forest → Forest → Prop where
  | nil : Tagwise T [] []
  | leaf {n : Node} {ns ms : Forest} (h : n.isLeaf = true) (hns : Tagwise T ns ms) :
      Tagwise T (n :: ns) (n :: ms)
  | element {t u : Tag} {cs ds ns ms : Forest} (ht : T t u) (hcs : Tagwise T cs ds)
      (hns : Tagwise T ns ms) : Tagwise T (.element t cs :: ns) (.element u ds :: ms)

theorem Tagwise.mapTags {T : Tag → Tag → Prop} {f : Tag → Tag} (hf : ∀ t, T t (f t))
    (ns : Forest) : Tagwise T ns (mapTags f ns) := by
  induction ns using forest_induction with
  | nil => exact .nil
  | leaf n ns hl ih =>
    rw [mapTags_leaf hl]
    exact .leaf hl ih
  | element t cs ns ihcs ihns => exact .element (hf t) ihcs ihns

/-- What changes nothing the second time on any element changes no forest the second time. -/
theorem mapTags_mapTags_self {f : Tag → Tag} (hf : ∀ t, f (f t) = f t) (ns : Forest) :
    mapTags f (mapTags f ns) = mapTags f ns := by
  induction ns using forest_induction with
  | nil => rfl
  | leaf n ns hl ih => rw [mapTags_leaf hl, mapTags_leaf hl, ih]
  | element t cs ns ihcs ihns => rw [mapTags_element, mapTags_element, hf, ihcs, ihns]

theorem tags_mapTags (f : Tag → Tag) (ns : Forest) : tags (mapTags f ns) = (tags ns).map f := by
  induction ns using forest_induction with
  | nil => rfl
  | leaf n ns hl ih => rw [mapTags_leaf hl, tags_leaf hl, tags_leaf hl, ih]
  | element t cs ns ihcs ihns =>
    rw [mapTags_element, tags_element, tags_element, ihcs, ihns, List.map_cons, List.map_append]

end StaticSite.Html

import StaticSite.Proofs.Html.Forest

/-!
# What holds of every element

`Every P ns` says that `P` holds of the tag of every element of the forest. Whatever is done with
forests puts together elements that were there before, and changes no more of a tag than its origin
and the properties of an instance, none of which is an attribute `src`.
-/

namespace StaticSite.Html

/-- The property holds of every element of the forest. -/
def Every (P : Tag → Prop) (ns : Forest) : Prop := ∀ t ∈ tags ns, P t

/-! ## Tags -/

theorem sameName_trans {a b d : String} (h : Text.sameName a b = true) :
    Text.sameName a d = Text.sameName b d := by
  rw [Text.sameName, beq_iff_eq] at h
  rw [Text.sameName, Text.sameName, h]

theorem find?_setAttrIn {key name : String} (h : Text.sameName key name = false) (value : String)
    (attrs : List (String × String)) :
    ((Tag.setAttrIn key value attrs).find? fun a => Text.sameName a.1 name) =
      attrs.find? fun a => Text.sameName a.1 name := by
  induction attrs with
  | nil => rw [Tag.setAttrIn, List.find?_cons, h]
  | cons a attrs ih =>
    rw [Tag.setAttrIn]
    split
    · rename_i ha
      have hname : Text.sameName a.1 name = false := (sameName_trans ha).trans h
      rw [List.find?_cons, List.find?_cons, hname]
    · rw [List.find?_cons, List.find?_cons, ih]

/-- Setting an attribute does not change another one. -/
theorem Tag.attr?_setAttr {key name : String} (h : Text.sameName key name = false) (t : Tag)
    (value : String) : (t.setAttr key value).attr? name = t.attr? name := by
  rw [attr?, setAttr, find?_setAttrIn h, attr?]

/-- No property is carried by an attribute `src`. -/
theorem sameName_propertyName (key : String) : Text.sameName (propertyName key) "src" = false := by
  rw [Bool.eq_false_iff, propertyName, Text.sameName, ne_eq, beq_iff_eq]
  intro h
  have hhead := congrArg List.head? h
  simp [Text.lower] at hhead

theorem exists_key_of_mem_properties {m : Metadata} {tag : Tag} {q : String × String}
    (h : q ∈ metadataProperties m ++ instanceProperties tag) : ∃ key, q.1 = propertyName key := by
  rcases List.mem_append.1 h with h | h
  · obtain ⟨e, -, rfl⟩ := List.mem_map.1 h
    exact ⟨e.1, rfl⟩
  · obtain ⟨a, -, rfl⟩ := List.mem_map.1 h
    exact ⟨a.1, rfl⟩

/-- The name and the attribute `src` of the element decide whether `P` holds. -/
def SourceOnly (P : Tag → Prop) : Prop :=
  ∀ ⦃t u : Tag⦄, t.name = u.name → t.attr? "src" = u.attr? "src" → P t → P u

theorem SourceOnly.setProperties {P : Tag → Prop} (hP : SourceOnly P)
    {ps : List (String × String)} (hps : ∀ q ∈ ps, ∃ key, q.1 = propertyName key) {t : Tag}
    (h : P t) : P (t.setProperties ps) := by
  induction ps generalizing t with
  | nil => exact h
  | cons q ps ih =>
    obtain ⟨hq, hps⟩ := List.forall_mem_cons.1 hps
    obtain ⟨key, hkey⟩ := hq
    refine ih hps (hP (t := t) rfl ?_ h)
    rw [Tag.attr?_setAttr]
    rw [hkey]
    exact sameName_propertyName key

/-! ## Forests -/

namespace Every

variable {P : Tag → Prop} {ns ms xs : Forest}

theorem nil : Every P [] := fun _ h => by cases h

theorem leaf_iff {n : Node} (hl : n.isLeaf = true) : Every P (n :: ns) ↔ Every P ns := by
  rw [Every, tags_leaf hl, Every]

theorem element_iff {t : Tag} {cs : Forest} :
    Every P (.element t cs :: ns) ↔ P t ∧ Every P cs ∧ Every P ns := by
  rw [Every, tags_element, List.forall_mem_cons, List.forall_mem_append, Every, Every]

theorem cons_iff {n : Node} : Every P (n :: ns) ↔ Every P [n] ∧ Every P ns := by
  rw [Every, Every, Every, tags, tags, tags, List.append_nil, List.forall_mem_append]

theorem append (h : Every P ns) (h' : Every P ms) : Every P (ns ++ ms) := by
  induction ns using forest_induction with
  | nil => exact h'
  | leaf n ns hl ih =>
    rw [leaf_iff hl] at h
    exact (leaf_iff hl).2 (ih h)
  | element t cs ns _ ih =>
    obtain ⟨ht, hcs, hns⟩ := element_iff.1 h
    exact element_iff.2 ⟨ht, hcs, ih hns⟩

theorem mapTags {f : Tag → Tag} (hf : ∀ t, P t → P (f t)) (h : Every P ns) :
    Every P (mapTags f ns) := by
  induction ns using forest_induction with
  | nil => exact nil
  | leaf n ns hl ih =>
    rw [mapTags_leaf hl, leaf_iff hl]
    exact ih ((leaf_iff hl).1 h)
  | element t cs ns ihcs ihns =>
    obtain ⟨ht, hcs, hns⟩ := element_iff.1 h
    rw [mapTags_element]
    exact element_iff.2 ⟨hf t ht, ihcs hcs, ihns hns⟩

theorem applyProperties (hP : SourceOnly P) (m : Metadata) (tag : Tag) (h : Every P ns) :
    Every P (applyProperties m tag ns) := by
  induction ns using forest_induction with
  | nil => exact nil
  | leaf n ns hl ih =>
    rw [applyProperties_leaf hl, leaf_iff hl]
    exact ih ((leaf_iff hl).1 h)
  | element t cs ns _ ih =>
    obtain ⟨ht, hcs, hns⟩ := element_iff.1 h
    rw [applyProperties_element]
    exact element_iff.2
      ⟨hP.setProperties (fun _ => exists_key_of_mem_properties) ht, hcs, ih hns⟩

theorem stripScripts (h : Every P ns) : Every P (stripScripts ns) := by
  induction ns using forest_induction with
  | nil => exact nil
  | leaf n ns hl ih =>
    rw [stripScripts_leaf hl, leaf_iff hl]
    exact ih ((leaf_iff hl).1 h)
  | element t cs ns ihcs ihns =>
    obtain ⟨ht, hcs, hns⟩ := element_iff.1 h
    rw [stripScripts_element]
    split
    · split
      · exact element_iff.2 ⟨ht, hcs, ihns hns⟩
      · exact ihns hns
    · exact element_iff.2 ⟨ht, ihcs hcs, ihns hns⟩

theorem retainFirst (r : ScriptRegistry) (h : Every P ns) : Every P (retainFirst r ns).1 := by
  induction ns using forest_induction generalizing r with
  | nil => exact nil
  | leaf n ns hl ih =>
    rw [retainFirst_leaf hl, leaf_iff hl]
    exact ih r ((leaf_iff hl).1 h)
  | element t cs ns ihcs ihns =>
    obtain ⟨ht, hcs, hns⟩ := element_iff.1 h
    rw [retainFirst_element]
    split
    · split
      · exact element_iff.2 ⟨ht, hcs, ihns r hns⟩
      · split
        · exact element_iff.2 ⟨ht, hcs, ihns _ hns⟩
        · exact ihns _ hns
    · exact element_iff.2 ⟨ht, ihcs r hcs, ihns _ hns⟩

/-- What fills the slots and what stands around them is what is left. -/
theorem fillSlots {content : Option Filling}
    (hcontent : ∀ f ∈ content, ∀ first, Every P (f.next first)) (first : Bool) (h : Every P ns) :
    Every P (fillSlots content first ns).1 := by
  induction ns using forest_induction generalizing first with
  | nil => exact nil
  | leaf n ns hl ih =>
    rw [fillSlots_leaf hl, leaf_iff hl]
    exact ih first ((leaf_iff hl).1 h)
  | element t cs ns ihcs ihns =>
    obtain ⟨ht, hcs, hns⟩ := element_iff.1 h
    rcases hs : t.is "slot" with _ | _
    · rw [fillSlots_element _ _ hs]
      exact element_iff.2 ⟨ht, ihcs first hcs, ihns _ hns⟩
    · rw [fillSlots_slot _ _ hs]
      rcases content with _ | f
      · exact hcs.append (ihns _ hns)
      · exact (hcontent f rfl first).append (ihns _ hns)

end Every

end StaticSite.Html

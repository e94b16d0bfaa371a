import StaticSite.Proofs.Html.Exposure

/-!
# Slots inside slots

An instance replaces the slots of its component. With content, nothing of a slot is left, but
without content the children of each slot stay, and the slots among them are not replaced
(`hasSlot_fill_none`). So an instance can leave slots behind if a slot stands inside another one.

`SlotsWithin xs ns` says that `xs` has slots, and slots inside slots, only if `ns` does. Whatever is
done with forests keeps it so.
-/

namespace StaticSite.Html

mutual

/-- Whether a slot stands inside a slot of the node. -/
def Node.nestsSlots : Node → Bool
  | .element t cs => t.is "slot" && hasSlot cs || nestsSlots cs
  | _ => false

/-- Whether a slot stands inside a slot of the forest. -/
def nestsSlots : Forest → Bool
  | [] => false
  | n :: ns => n.nestsSlots || nestsSlots ns

end

variable {ns ms xs ys : Forest}

theorem hasSlot_append : hasSlot (ns ++ ms) = (hasSlot ns || hasSlot ms) := by
  induction ns using forest_induction with
  | nil => rfl
  | leaf n ns hl ih => rw [List.cons_append, hasSlot_leaf hl, hasSlot_leaf hl, ih]
  | element t cs ns _ ih =>
    rw [List.cons_append, hasSlot_element, hasSlot_element, ih, Bool.or_assoc, Bool.or_assoc,
      Bool.or_assoc]

theorem nestsSlots_leaf {n : Node} (h : n.isLeaf = true) (ns : Forest) :
    nestsSlots (n :: ns) = nestsSlots ns := by
  cases n <;> first | rfl | cases h

theorem nestsSlots_element (t : Tag) (cs ns : Forest) :
    nestsSlots (.element t cs :: ns) =
      (t.is "slot" && hasSlot cs || nestsSlots cs || nestsSlots ns) := rfl

theorem nestsSlots_append : nestsSlots (ns ++ ms) = (nestsSlots ns || nestsSlots ms) := by
  induction ns with
  | nil => rfl
  | cons n ns ih => rw [List.cons_append, nestsSlots, nestsSlots, ih, Bool.or_assoc]

/-- A slot inside a slot is a slot. -/
theorem hasSlot_of_nestsSlots (h : nestsSlots ns = true) : hasSlot ns = true := by
  induction ns using forest_induction with
  | nil => cases h
  | leaf n ns hl ih =>
    rw [nestsSlots_leaf hl] at h
    rw [hasSlot_leaf hl, ih h]
  | element t cs ns ihcs ihns =>
    rw [nestsSlots_element, Bool.or_eq_true, Bool.or_eq_true, Bool.and_eq_true] at h
    rw [hasSlot_element]
    rcases h with (⟨ht, -⟩ | hcs) | hns
    · rw [ht, Bool.true_or, Bool.true_or]
    · rw [ihcs hcs, Bool.or_true, Bool.true_or]
    · rw [ihns hns, Bool.or_true]

/-- Without content, an instance leaves a slot if and only if one stands inside another. -/
theorem hasSlot_fill_none (first : Bool) :
    hasSlot (fillSlots none first ns).1 = nestsSlots ns := by
  induction ns using forest_induction generalizing first with
  | nil => rfl
  | leaf n ns hl ih => rw [fillSlots_leaf hl, hasSlot_leaf hl, nestsSlots_leaf hl, ih]
  | element t cs ns ihcs ihns =>
    rcases hs : t.is "slot" with _ | _
    · rw [fillSlots_element _ _ hs, hasSlot_element, nestsSlots_element, hs, ihcs, ihns]
      rfl
    · rw [fillSlots_slot _ _ hs, hasSlot_append, nestsSlots_element, hs, ihns, Bool.true_and]
      rcases hcs : nestsSlots cs with _ | _
      · rw [Bool.or_false]
      · rw [hasSlot_of_nestsSlots hcs]
        rfl

/-- The left forest has slots, and slots inside slots, only if the right one does. -/
structure SlotsWithin (xs ns : Forest) : Prop where
  slots : hasSlot xs = true → hasSlot ns = true
  nested : nestsSlots xs = true → nestsSlots ns = true

namespace SlotsWithin

theorem nil (ns : Forest) : SlotsWithin [] ns := ⟨fun h => (by cases h), fun h => (by cases h)⟩

theorem refl (ns : Forest) : SlotsWithin ns ns := ⟨fun h => h, fun h => h⟩

theorem trans (h : SlotsWithin xs ys) (h' : SlotsWithin ys ns) : SlotsWithin xs ns :=
  ⟨fun hx => h'.slots (h.slots hx), fun hx => h'.nested (h.nested hx)⟩

theorem slots_eq (h : SlotsWithin xs ns) (hns : hasSlot ns = false) : hasSlot xs = false := by
  rw [Bool.eq_false_iff] at hns ⊢
  exact fun hx => hns (h.slots hx)

theorem nested_eq (h : SlotsWithin xs ns) (hns : nestsSlots ns = false) :
    nestsSlots xs = false := by
  rw [Bool.eq_false_iff] at hns ⊢
  exact fun hx => hns (h.nested hx)

/-- What has no slots has slots only where anything has. -/
theorem of_hasSlot (h : hasSlot xs = false) (ns : Forest) : SlotsWithin xs ns := by
  refine ⟨fun hx => ?_, fun hx => ?_⟩
  · rw [h] at hx
    cases hx
  · rw [hasSlot_of_nestsSlots hx] at h
    cases h

theorem append (h : SlotsWithin xs ns) (h' : SlotsWithin ys ns) : SlotsWithin (xs ++ ys) ns := by
  refine ⟨fun hx => ?_, fun hx => ?_⟩
  · rw [hasSlot_append, Bool.or_eq_true] at hx
    exact hx.elim h.slots h'.slots
  · rw [nestsSlots_append, Bool.or_eq_true] at hx
    exact hx.elim h.nested h'.nested

theorem left (ns ms : Forest) : SlotsWithin ns (ns ++ ms) := by
  refine ⟨fun h => ?_, fun h => ?_⟩
  · rw [hasSlot_append, h, Bool.true_or]
  · rw [nestsSlots_append, h, Bool.true_or]

theorem right (ns ms : Forest) : SlotsWithin ms (ns ++ ms) := by
  refine ⟨fun h => ?_, fun h => ?_⟩
  · rw [hasSlot_append, h, Bool.or_true]
  · rw [nestsSlots_append, h, Bool.or_true]

theorem children (t : Tag) (cs : Forest) : SlotsWithin cs [.element t cs] := by
  refine ⟨fun h => ?_, fun h => ?_⟩
  · rw [hasSlot_element, h, Bool.or_true, Bool.true_or]
  · rw [nestsSlots_element, h, Bool.or_true, Bool.true_or]

theorem element {t u : Tag} (ht : t.is "slot" = u.is "slot") (h : SlotsWithin xs ns) :
    SlotsWithin [.element t xs] [.element u ns] := by
  refine ⟨fun hx => ?_, fun hx => ?_⟩
  · rw [hasSlot_element, Bool.or_eq_true, Bool.or_eq_true] at hx ⊢
    rw [ht] at hx
    exact hx.imp_left fun hx => hx.imp_right h.slots
  · rw [nestsSlots_element, Bool.or_eq_true, Bool.or_eq_true, Bool.and_eq_true] at hx ⊢
    rw [ht] at hx
    exact hx.imp_left fun hx => hx.imp (fun hx => hx.imp_right h.slots) h.nested

/-- Slots are compared part by part. -/
theorem cons {n : Node} (hn : SlotsWithin xs [n]) (h : SlotsWithin ys ns) :
    SlotsWithin (xs ++ ys) (n :: ns) :=
  (hn.trans (left [n] ns)).append (h.trans (right [n] ns))

theorem mapTags {f : Tag → Tag} (hf : ∀ t, (f t).is "slot" = t.is "slot") (ns : Forest) :
    SlotsWithin (mapTags f ns) ns := by
  induction ns using forest_induction with
  | nil => exact .nil _
  | leaf n ns hl ih =>
    rw [mapTags_leaf hl]
    exact cons (.refl [n]) ih
  | element t cs ns ihcs ihns =>
    rw [mapTags_element]
    exact cons (.element (hf t) ihcs) ihns

theorem applyProperties (m : Metadata) (tag : Tag) (ns : Forest) :
    SlotsWithin (applyProperties m tag ns) ns := by
  induction ns using forest_induction with
  | nil => exact .nil _
  | leaf n ns hl ih =>
    rw [applyProperties_leaf hl]
    exact cons (.refl [n]) ih
  | element t cs ns _ ih =>
    rw [applyProperties_element]
    exact cons (.element (Tag.setProperties_is _ _ _) (.refl cs)) ih

theorem stripScripts (ns : Forest) : SlotsWithin (stripScripts ns) ns := by
  induction ns using forest_induction with
  | nil => exact .nil _
  | leaf n ns hl ih =>
    rw [stripScripts_leaf hl]
    exact cons (.refl [n]) ih
  | element t cs ns ihcs ihns =>
    rw [stripScripts_element]
    split
    · split
      · exact cons (.refl [.element t cs]) ihns
      · exact ihns.trans (right [.element t cs] ns)
    · exact cons (.element rfl ihcs) ihns

theorem retainFirst (r : ScriptRegistry) (ns : Forest) : SlotsWithin (retainFirst r ns).1 ns := by
  induction ns using forest_induction generalizing r with
  | nil => exact .nil _
  | leaf n ns hl ih =>
    rw [retainFirst_leaf hl]
    exact cons (.refl [n]) (ih r)
  | element t cs ns ihcs ihns =>
    rw [retainFirst_element]
    split
    · split
      · exact cons (.refl [.element t cs]) (ihns r)
      · split
        · exact cons (.refl [.element t cs]) (ihns _)
        · exact (ihns _).trans (right [.element t cs] ns)
    · exact cons (.element rfl (ihcs r)) (ihns _)

/-- With content, an instance leaves the slots of its content. -/
theorem fill_some {f : Filling} (hf : ∀ first, SlotsWithin (f.next first) xs) (first : Bool)
    (ns : Forest) : SlotsWithin (fillSlots (some f) first ns).1 xs := by
  induction ns using forest_induction generalizing first with
  | nil => exact .nil _
  | leaf n ns hl ih =>
    rw [fillSlots_leaf hl]
    refine ⟨fun h => (ih first).slots ?_, fun h => (ih first).nested ?_⟩
    · rwa [hasSlot_leaf hl] at h
    · rwa [nestsSlots_leaf hl] at h
  | element t cs ns ihcs ihns =>
    rcases hs : t.is "slot" with _ | _
    · rw [fillSlots_element _ _ hs]
      have hns := ihns (fillSlots (some f) first cs).2
      refine ⟨fun h => ?_, fun h => ?_⟩
      · rw [hasSlot_element, hs, Bool.false_or, Bool.or_eq_true] at h
        exact h.elim (ihcs first).slots hns.slots
      · rw [nestsSlots_element, hs, Bool.false_and, Bool.false_or, Bool.or_eq_true] at h
        exact h.elim (ihcs first).nested hns.nested
    · rw [fillSlots_slot _ _ hs]
      exact (hf first).append (ihns false)

end SlotsWithin

end StaticSite.Html

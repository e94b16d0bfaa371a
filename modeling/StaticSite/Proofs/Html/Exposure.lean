import StaticSite.Proofs.Html.Scripts

/-!
# How slots expose scripts

A script inside the fallback of a slot is dropped with the fallback when an instance has content.
The *exposure* of scripts is the least number of slots around one of them. An instance without
content opens one slot around everything (`exposes_fill_none`). An instance with content keeps what
no slot is around, and adds what is in its content (`exposes_fill_some`).
-/

namespace StaticSite.Html

mutual

/-- The exposure of the elements of a node that `P` picks. -/
def Node.exposure (P : Tag → Bool) : Node → Option Nat
  | .element t cs =>
    if P t then some 0
    else if t.is "slot" then (exposure P cs).map (· + 1)
    else exposure P cs
  | _ => none

/-- The least number of slots around an element that `P` picks, if there is one. -/
def exposure (P : Tag → Bool) : Forest → Option Nat
  | [] => none
  | n :: ns => Option.merge min (n.exposure P) (exposure P ns)

end

/-- Whether an element that `P` picks stands inside at most `i` slots. -/
def exposes (P : Tag → Bool) (i : Nat) (ns : Forest) : Bool := (exposure P ns).any (· ≤ i)

theorem any_merge_min (a b : Option Nat) (i : Nat) :
    (Option.merge min a b).any (· ≤ i) = (a.any (· ≤ i) || b.any (· ≤ i)) := by
  rcases a with _ | a
  · rcases b with _ | b
    · rfl
    · rfl
  · rcases b with _ | b
    · simp
    · show decide (min a b ≤ i) = (decide (a ≤ i) || decide (b ≤ i))
      rw [← Bool.decide_or]
      exact decide_eq_decide.2 (by omega)

theorem any_map_succ (a : Option Nat) (i : Nat) :
    (a.map (· + 1)).any (· ≤ i) = (decide (0 < i) && a.any (· ≤ i - 1)) := by
  rcases a with _ | a
  · simp
  · rcases i with _ | i
    · simp
    · simp

/-- A least number is known from the numbers that it does not exceed. -/
theorem any_le_inj {a b : Option Nat} : (∀ i, a.any (· ≤ i) = b.any (· ≤ i)) ↔ a = b := by
  refine ⟨fun h => ?_, fun h i => by rw [h]⟩
  rcases a with _ | a
  · rcases b with _ | b
    · rfl
    · simpa using h b
  · rcases b with _ | b
    · simpa using h a
    · have ha := h a
      have hb := h b
      simp at ha hb
      rw [Nat.le_antisymm hb ha]

section Laws

variable {P Q : Tag → Bool} {i : Nat} {ns ms : Forest}

theorem exposes_nil : exposes P i [] = false := rfl

theorem exposes_leaf {n : Node} (h : n.isLeaf = true) (ns : Forest) :
    exposes P i (n :: ns) = exposes P i ns := by
  rw [exposes, exposure, any_merge_min, exposes]
  cases n <;> first | rfl | cases h

theorem exposes_element (t : Tag) (cs ns : Forest) :
    exposes P i (.element t cs :: ns) =
      (P t || (if t.is "slot" then decide (0 < i) && exposes P (i - 1) cs else exposes P i cs) ||
        exposes P i ns) := by
  simp only [exposes, exposure, Node.exposure, any_merge_min]
  congr 1
  rcases hP : P t with _ | _
  · rw [if_neg Bool.false_ne_true, Bool.false_or]
    split
    · exact any_map_succ _ _
    · rfl
  · rw [if_pos rfl, Bool.true_or]
    exact decide_eq_true (Nat.zero_le i)

theorem exposes_append : exposes P i (ns ++ ms) = (exposes P i ns || exposes P i ms) := by
  induction ns using forest_induction with
  | nil => rfl
  | leaf n ns hl ih => rw [List.cons_append, exposes_leaf hl, exposes_leaf hl, ih]
  | element t cs ns _ ih =>
    rw [List.cons_append, exposes_element, exposes_element, ih, Bool.or_assoc, Bool.or_assoc,
      Bool.or_assoc]

theorem exposes_leaves (h : ∀ n ∈ ns, n.isLeaf = true) : exposes P i ns = false := by
  induction ns with
  | nil => rfl
  | cons n ns ih =>
    obtain ⟨hn, hns⟩ := List.forall_mem_cons.1 h
    rw [exposes_leaf hn, ih hns]

/-- Two forests have the same exposure if they expose to the same numbers of slots. -/
theorem exposure_eq_iff {P Q : Tag → Bool} :
    exposure P ns = exposure Q ms ↔ ∀ i, exposes P i ns = exposes Q i ms :=
  any_le_inj.symm

/-- What is picked is exposed to some number of slots. -/
theorem count_pos_iff_exposes : 0 < count P ns ↔ ∃ i, exposes P i ns = true := by
  induction ns using forest_induction with
  | nil => simp [count_nil, exposes_nil]
  | leaf n ns hl ih => simp only [count_leaf hl, exposes_leaf hl, ih]
  | element t cs ns ihcs ihns =>
    simp only [count_element, exposes_element]
    constructor
    · intro h
      by_cases hP : P t = true
      · exact ⟨0, by rw [hP]; rfl⟩
      rw [if_neg hP] at h
      by_cases hcs : 0 < count P cs
      · obtain ⟨i, hi⟩ := ihcs.1 hcs
        rcases hs : t.is "slot" with _ | _
        · exact ⟨i, by simp [hi]⟩
        · exact ⟨i + 1, by simp [hi]⟩
      · obtain ⟨i, hi⟩ := ihns.1 (by omega)
        exact ⟨i, by rw [hi, Bool.or_true]⟩
    · rintro ⟨i, hi⟩
      rw [Bool.or_eq_true, Bool.or_eq_true] at hi
      rcases hi with (hP | hcs) | hns
      · rw [if_pos hP]
        omega
      · have : 0 < count P cs := by
          rcases hs : t.is "slot" with _ | _
          · rw [hs] at hcs
            exact ihcs.2 ⟨i, hcs⟩
          · rw [hs, if_pos rfl, Bool.and_eq_true] at hcs
            exact ihcs.2 ⟨i - 1, hcs.2⟩
        omega
      · have := ihns.2 ⟨i, hns⟩
        omega

theorem exposes_mapTags {f : Tag → Tag} (hf : ∀ t, (f t).is "slot" = t.is "slot") :
    exposes P i (mapTags f ns) = exposes (fun t => P (f t)) i ns := by
  induction ns using forest_induction generalizing i with
  | nil => rfl
  | leaf n ns hl ih => rw [mapTags_leaf hl, exposes_leaf hl, exposes_leaf hl, ih]
  | element t cs ns ihcs ihns =>
    rw [mapTags_element, exposes_element, exposes_element, hf, ihcs, ihcs, ihns]

theorem exposes_or : exposes (fun t => P t || Q t) i ns = (exposes P i ns || exposes Q i ns) := by
  induction ns using forest_induction generalizing i with
  | nil => rfl
  | leaf n ns hl ih => rw [exposes_leaf hl, exposes_leaf hl, exposes_leaf hl, ih]
  | element t cs ns ihcs ihns =>
    rw [exposes_element, exposes_element, exposes_element, ihcs, ihcs, ihns, Bool.eq_iff_iff]
    cases t.is "slot"
    · simp
      tauto
    · simp
      tauto

theorem exposes_applyProperties (hP : ∀ t ps, P (Tag.setProperties t ps) = P t) (m : Metadata)
    (tag : Tag) : exposes P i (applyProperties m tag ns) = exposes P i ns := by
  induction ns using forest_induction with
  | nil => rfl
  | leaf n ns hl ih => rw [applyProperties_leaf hl, exposes_leaf hl, exposes_leaf hl, ih]
  | element t cs ns _ ih =>
    rw [applyProperties_element, exposes_element, exposes_element, ih, hP, Tag.setProperties_is]

section Fill

variable (hP : ∀ t, P t = true → t.is "script" = true)

include hP

theorem not_of_slot {t : Tag} (ht : t.is "slot" = true) : P t = false := by
  rw [Bool.eq_false_iff]
  intro h
  rw [Tag.not_slot (hP t h)] at ht
  cases ht

/-- Without content, an instance opens a slot around everything. -/
theorem exposes_fill_none (first : Bool) :
    exposes P i (fillSlots none first ns).1 = exposes P (i + 1) ns := by
  induction ns using forest_induction generalizing first with
  | nil => rfl
  | leaf n ns hl ih => rw [fillSlots_leaf hl, exposes_leaf hl, exposes_leaf hl, ih]
  | element t cs ns ihcs ihns =>
    rcases hs : t.is "slot" with _ | _
    · rw [fillSlots_element _ _ hs, exposes_element, exposes_element, hs, ihcs, ihns]
      rfl
    · rw [fillSlots_slot _ _ hs, exposes_element, exposes_append, ihns, not_of_slot hP hs, hs]
      simp

end Fill

/-- The first slot is still to come if there was none. -/
theorem fillSlots_flag (f : Filling) (first : Bool) :
    (fillSlots (some f) first ns).2 = (first && !hasSlot ns) := by
  induction ns using forest_induction generalizing first with
  | nil => exact (Bool.and_true first).symm
  | leaf n ns hl ih => rw [fillSlots_leaf hl, hasSlot_leaf hl, ih]
  | element t cs ns ihcs ihns =>
    rcases hs : t.is "slot" with _ | _
    · rw [fillSlots_element _ _ hs, hasSlot_element, hs, ihns, ihcs, Bool.false_or, Bool.not_or,
        Bool.and_assoc]
    · rw [fillSlots_slot _ _ hs, hasSlot_element, hs, ihns]
      simp

/-- With content, an instance keeps what no slot is around, and has what is in its content. -/
theorem exposes_fill_some {f : Filling} (hP : ∀ t, P t = true → t.is "script" = true)
    (hf : exposes P i f.later = true → exposes P i f.first = true) (first : Bool) :
    exposes P i (fillSlots (some f) first ns).1 =
      (exposes P 0 ns || hasSlot ns && exposes P i (f.next first)) := by
  -- A later slot matters only if there was a first one, which exposes as much.
  have hnext : ∀ first, exposes P i (f.next false) = true → exposes P i (f.next first) = true := by
    intro first h
    cases first with
    | false => exact h
    | true => exact hf h
  induction ns using forest_induction generalizing first with
  | nil => rfl
  | leaf n ns hl ih => rw [fillSlots_leaf hl, exposes_leaf hl, exposes_leaf hl, hasSlot_leaf hl, ih]
  | element t cs ns ihcs ihns =>
    have hfirst := hnext first
    rw [Bool.eq_iff_iff, exposes_element, hasSlot_element]
    rcases hs : t.is "slot" with _ | _
    · rw [fillSlots_element _ _ hs, exposes_element, hs, ihcs, ihns, fillSlots_flag]
      cases hasSlot cs
      · simp
        tauto
      · simp
        tauto
    · rw [fillSlots_slot _ _ hs, exposes_append, ihns, not_of_slot hP hs]
      simp
      tauto

end Laws

end StaticSite.Html

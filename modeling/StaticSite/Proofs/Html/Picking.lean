import StaticSite.Proofs.Html.Scripts

/-!
# Elements that are picked

A predicate on tags picks elements of a forest. `pick P` lists those that are not inside another
picked one, with what they contain, and `without P` is the forest that is left when they are taken
out. Where nothing stands inside a picked element, as with scripts, all elements are left but the
picked ones (`tags_without`).
-/

namespace StaticSite.Html

mutual

/-- The node without the elements that `P` picks. -/
def Node.without (P : Tag → Bool) : Node → Forest
  | .element t cs => if P t then [] else [.element t (without P cs)]
  | n => [n]

/-- The forest without the elements that `P` picks and without what they contain. -/
def without (P : Tag → Bool) : Forest → Forest
  | [] => []
  | n :: ns => Node.without P n ++ without P ns

end

mutual

/-- The outermost elements of a node that `P` picks. -/
def Node.pick (P : Tag → Bool) : Node → Forest
  | .element t cs => if P t then [.element t cs] else pick P cs
  | _ => []

/-- The outermost elements of the forest that `P` picks, in document order. -/
def pick (P : Tag → Bool) : Forest → Forest
  | [] => []
  | n :: ns => Node.pick P n ++ pick P ns

end

variable {P : Tag → Bool} {n : Node} {ns ms : Forest}

/-! ## What is left -/

theorem without_leaf (h : n.isLeaf = true) : without P (n :: ns) = n :: without P ns := by
  cases n <;> first | rfl | cases h

theorem without_leaves (h : ∀ n ∈ ns, n.isLeaf = true) : without P ns = ns := by
  induction ns with
  | nil => rfl
  | cons n ns ih =>
    obtain ⟨hn, hns⟩ := List.forall_mem_cons.1 h
    rw [without_leaf hn, ih hns]

theorem without_element (t : Tag) (cs : Forest) :
    without P (.element t cs :: ns) =
      if P t then without P ns else .element t (without P cs) :: without P ns := by
  rw [without, Node.without]
  split
  · rfl
  · rfl

/-- The elements that are left are those that are not picked, if nothing stands in a picked one. -/
theorem Flat.tags_without (hP : ∀ t, P t = true → t.is "script" = true) (h : Flat ns) :
    tags (without P ns) = (tags ns).filter fun t => !P t := by
  induction h with
  | nil => rfl
  | leaf hl _ ih => rw [without_leaf hl, tags_leaf hl, tags_leaf hl, ih]
  | @script t cs ns ht hcs _ ih =>
    rw [without_element, tags_element, tags_leaves hcs, List.nil_append, List.filter_cons]
    rcases P t with _ | _
    · rw [if_neg Bool.false_ne_true, tags_element, without_leaves hcs, tags_leaves hcs, ih]
      rfl
    · exact ih
  | @element t cs ns ht _ _ ihcs ihns =>
    have hPt : P t = false := Bool.eq_false_iff.2 fun h => by simp [hP t h] at ht
    rw [without_element, hPt, tags_element, List.filter_cons, hPt, List.filter_append, ← ihcs,
      ← ihns]
    rfl

/-! ## What is picked -/

theorem pick_leaf (h : n.isLeaf = true) : pick P (n :: ns) = pick P ns := by
  cases n <;> first | rfl | cases h

theorem pick_leaves (h : ∀ n ∈ ns, n.isLeaf = true) : pick P ns = [] := by
  induction ns with
  | nil => rfl
  | cons n ns ih =>
    obtain ⟨hn, hns⟩ := List.forall_mem_cons.1 h
    rw [pick_leaf hn, ih hns]

theorem pick_element (t : Tag) (cs : Forest) :
    pick P (.element t cs :: ns) = (if P t then [.element t cs] else pick P cs) ++ pick P ns := by
  rw [pick, Node.pick]

theorem pick_append : pick P (ns ++ ms) = pick P ns ++ pick P ms := by
  induction ns with
  | nil => rfl
  | cons n ns ih => rw [List.cons_append, pick, pick, ih, List.append_assoc]

theorem pick_eq_nil_iff : pick P ns = [] ↔ ∀ t ∈ tags ns, P t = false := by
  induction ns using forest_induction with
  | nil => simp [pick, tags]
  | leaf n ns hl ih => rw [pick_leaf hl, tags_leaf hl, ih]
  | element t cs ns ihcs ihns =>
    rw [pick_element, tags_element, List.append_eq_nil_iff, List.forall_mem_cons,
      List.forall_mem_append, ihns]
    split
    · rename_i ht
      simp [ht]
    · rename_i ht
      rw [ihcs, Bool.not_eq_true] at *
      tauto

/-- Nothing that is left is picked. -/
theorem pick_without_self : pick P (without P ns) = [] := by
  induction ns using forest_induction with
  | nil => rfl
  | leaf n ns hl ih => rw [without_leaf hl, pick_leaf hl, ih]
  | element t cs ns ihcs ihns =>
    rw [without_element]
    split
    · exact ihns
    · rename_i ht
      rw [pick_element, if_neg ht, ihcs, ihns]
      rfl

end StaticSite.Html

import StaticSite.Html.Node

/-!
# Document order

`parts` lists all nodes of a forest in document order, parents before children, and `outline` lists
them without what is below them, so that each node of the forest stands in the list once.
`StandsBetween` says where in this order a node stands with all that is below it.
-/

namespace StaticSite.Html

/-- The node without what is below it. -/
def Node.bare : Node → Node
  | .element t _ => .element t []
  | n => n

mutual

/-- The node and all nodes below it in document order. -/
def Node.parts : Node → List Node
  | .element t cs => .element t cs :: parts cs
  | n => [n]

/-- All nodes of the forest in document order, parents before children. -/
def parts : Forest → List Node
  | [] => []
  | n :: ns => n.parts ++ parts ns

end

/-- The nodes of the forest in document order, parents before children. An element is listed without
its children, which have entries of their own. -/
def outline (ns : Forest) : List Node := (parts ns).map Node.bare

/-- In document order, the node with all that is below it stands between the entries `before` and
the entries `after`. -/
def StandsBetween (n : Node) (ns : Forest) (before after : List Node) : Prop :=
  ∃ xs ys, parts ns = xs ++ n.parts ++ ys ∧ xs.map Node.bare = before ∧ ys.map Node.bare = after

theorem parts_singleton (n : Node) : parts [n] = n.parts := List.append_nil _

theorem parts_append (ns ms : Forest) : parts (ns ++ ms) = parts ns ++ parts ms := by
  induction ns with
  | nil => rfl
  | cons n ns ih => rw [List.cons_append, parts, parts, ih, List.append_assoc]

theorem outline_append (ns ms : Forest) : outline (ns ++ ms) = outline ns ++ outline ms := by
  rw [outline, parts_append, List.map_append]
  rfl

theorem outline_element (t : Tag) (cs : Forest) :
    outline [.element t cs] = .element t [] :: outline cs := by
  rw [outline, parts_singleton, Node.parts]
  rfl

namespace StandsBetween

variable {n : Node} {ns : Forest} {before after : List Node}

theorem refl (n : Node) : StandsBetween n [n] [] [] :=
  ⟨[], [], by rw [parts_singleton, List.nil_append, List.append_nil], rfl, rfl⟩

theorem outline_eq (h : StandsBetween n ns before after) :
    outline ns = before ++ outline [n] ++ after := by
  obtain ⟨xs, ys, hparts, rfl, rfl⟩ := h
  rw [outline, outline, parts_singleton, hparts, List.map_append, List.map_append]

/-- What stands behind a node is what is left of the list. -/
theorem congr_after {after' : List Node} (h : StandsBetween n ns before after)
    (hns : outline ns = before ++ outline [n] ++ after') : StandsBetween n ns before after' := by
  have hafter : after = after' := List.append_cancel_left (h.outline_eq.symm.trans hns)
  exact hafter ▸ h

/-- What stands in a forest stands in every forest around it. -/
theorem append (h : StandsBetween n ns before after) (ms os : Forest) :
    StandsBetween n (ms ++ ns ++ os) (outline ms ++ before) (after ++ outline os) := by
  obtain ⟨xs, ys, hparts, rfl, rfl⟩ := h
  refine ⟨parts ms ++ xs, ys ++ parts os, ?_, List.map_append, List.map_append⟩
  simp only [parts_append, hparts, List.append_assoc]

/-- What stands among the children of an element stands in the element. -/
theorem element (h : StandsBetween n ns before after) (t : Tag) :
    StandsBetween n [.element t ns] (.element t [] :: before) after := by
  obtain ⟨xs, ys, hparts, rfl, rfl⟩ := h
  refine ⟨.element t ns :: xs, ys, ?_, rfl, rfl⟩
  rw [parts_singleton, Node.parts, hparts]
  rfl

end StandsBetween

end StaticSite.Html

import StaticSite.Proofs.Html.Shape

/-!
# What a source can say

The forest that a source stands for has no origins, and nothing but text in its scripts
(`parse_written`).
-/

namespace StaticSite.Html

open StaticSite.Text

/-- A node without origins whose scripts hold no elements. -/
inductive Node.Written : Node → Prop where
  | element {t : Tag} {cs : Forest} (origin : t.origin = none)
      (script : t.is "script" = true → ∀ n ∈ cs, n.isLeaf = true)
      (children : ∀ n ∈ cs, Node.Written n) : Node.Written (.element t cs)
  | leaf {n : Node} (h : n.isLeaf = true) : Node.Written n

/-- A forest without origins whose scripts hold no elements. -/
def Written (ns : Forest) : Prop := ∀ n ∈ ns, n.Written

theorem Written.cons {n : Node} {ns : Forest} (hn : n.Written) (hns : Written ns) :
    Written (n :: ns) :=
  List.forall_mem_cons.2 ⟨hn, hns⟩

theorem isRawText_of_script {t : Tag} (h : t.is "script" = true) : isRawText t.name = true := by
  rw [Tag.is, sameName, beq_iff_eq] at h
  simp [isRawText, rawTextNames, sameName, h]

theorem Node.Shaped.written {n : Node} (h : n.Shaped)
    (hchildren : ∀ t cs, n = .element t cs → Html.Shaped cs → Html.Written cs) : n.Written := by
  cases h with
  | text => exact .leaf rfl
  | markup hn =>
    refine .leaf ?_
    cases n <;> first | rfl | cases hn
  | childless ht =>
    exact .element ht.origin (fun _ _ h => absurd h List.not_mem_nil) fun _ h =>
      absurd h List.not_mem_nil
  | raw ht =>
    exact .element ht.origin (fun _ => rawText_leaves) fun _ hn => .leaf (rawText_leaves _ hn)
  | element ht _ hraw apart nodes =>
    refine .element ht.origin (fun hs => ?_) (hchildren _ _ rfl ⟨apart, nodes⟩)
    rw [isRawText_of_script hs] at hraw
    cases hraw

theorem Shaped.written {ns : Forest} (h : Shaped ns) : Written ns := by
  induction ns using forest_induction with
  | nil => exact fun _ h => absurd h List.not_mem_nil
  | leaf n ns hn ih => exact .cons (.leaf hn) (ih h.of_cons.2)
  | element t cs ns ihcs ihns =>
    refine .cons (h.of_cons.1.written fun u ds heq => ?_) (ihns h.of_cons.2)
    cases heq
    exact ihcs

/-- A forest that was read has no origins, and only text in its scripts. -/
theorem parse_written {source : String} {ns : Forest} (h : parse source = .ok ns) : Written ns :=
  (parse_shaped h).written

end StaticSite.Html

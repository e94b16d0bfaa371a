import Mathlib.Data.List.Basic
import StaticSite.Proofs.Path.Normal

/-!
# Normal forms of all paths

The normal form of a path has names only, behind the root or behind steps `..` that lead out of a
relative path (`Path.exists_normalSteps_relative`, and `Path.exists_normalSteps` for absolute
paths). Such steps are their own normal form, and so a folder may be put into its normal form before
a path is seen from it (`Path.normalize_canonical`).
-/

namespace StaticSite

/-- The steps of a normal path, which is absolute or not: no step is `.`, and steps `..` only stand
at the start of a relative path. -/
inductive NormalForm : Bool → List Component → Prop where
  /-- Names behind the root. -/
  | absolute (ns : List (List Char)) : NormalForm true (.root :: ns.map .name)
  /-- Names behind any number of steps `..`. -/
  | relative (k : Nat) (ns : List (List Char)) :
      NormalForm false (List.replicate k .parent ++ ns.map .name)

theorem foldl_push_replicate_parent (k j : Nat) :
    (List.replicate k Component.parent).foldl Component.push (List.replicate j .parent) =
      List.replicate (k + j) .parent := by
  induction k generalizing j with
  | zero => rw [Nat.zero_add]; rfl
  | succ k ih =>
    have hpush : Component.push (List.replicate j .parent) .parent =
        List.replicate (j + 1) .parent := by cases j <;> rfl
    rw [List.replicate_succ, List.foldl_cons, hpush, ih, Nat.add_right_comm, Nat.add_assoc]

/-- Steps that are taken in a relative path lead out of it or to names. Of the names around only
some are left, and the new ones are names among the steps. -/
theorem foldl_push_relative {cs : List Component} (h : .root ∉ cs) (ns : List (List Char))
    (k : Nat) :
    ∃ (ms : List (List Char)) (j : Nat), (∀ m ∈ ms, m ∈ ns ∨ .name m ∈ cs) ∧
      cs.foldl Component.push (ns.map .name ++ List.replicate k .parent) =
        ms.map .name ++ List.replicate j .parent := by
  induction cs generalizing ns k with
  | nil => exact ⟨ns, k, fun _ hm => .inl hm, rfl⟩
  | cons c cs ih =>
    have hcs : .root ∉ cs := fun hc => h (List.mem_cons_of_mem _ hc)
    cases c with
    | root => exact absurd List.mem_cons_self h
    | current =>
      obtain ⟨ms, j, hms, hf⟩ := ih hcs ns k
      exact ⟨ms, j, fun m hm => (hms m hm).imp_right (List.mem_cons_of_mem _), hf⟩
    | parent =>
      rcases ns with _ | ⟨n, ns⟩
      · obtain ⟨ms, j, hms, hf⟩ := ih hcs [] (k + 1)
        refine ⟨ms, j, fun m hm => (hms m hm).imp_right (List.mem_cons_of_mem _), ?_⟩
        cases k <;> exact hf
      · obtain ⟨ms, j, hms, hf⟩ := ih hcs ns k
        exact ⟨ms, j, fun m hm =>
          (hms m hm).imp (List.mem_cons_of_mem _) (List.mem_cons_of_mem _), hf⟩
    | name n =>
      obtain ⟨ms, j, hms, hf⟩ := ih hcs (n :: ns) k
      refine ⟨ms, j, fun m hm => ?_, ?_⟩
      · rcases hms m hm with hm | hm
        · rcases List.mem_cons.1 hm with rfl | hm
          · exact .inr List.mem_cons_self
          · exact .inl hm
        · exact .inr (List.mem_cons_of_mem _ hm)
      · rw [List.foldl_cons, Path.push_name]
        exact hf

namespace Path

theorem root_not_mem_components {p : Path} (ha : p.isAbsolute = false) : .root ∉ p.components := by
  rw [components_eq_lead, lead, if_neg (by simp [ha]), List.mem_append, not_or]
  refine ⟨?_, root_not_mem_stepsOf _⟩
  split <;> simp

/-- The normal steps of a relative path are names behind steps `..`. -/
theorem exists_normalSteps_relative {p : Path} (ha : p.isAbsolute = false) :
    ∃ (k : Nat) (ns : List (List Char)), (∀ n ∈ ns, IsName n) ∧
      normalSteps p.components = List.replicate k .parent ++ ns.map .name := by
  obtain ⟨ms, k, hms, hf⟩ := foldl_push_relative (root_not_mem_components ha) [] 0
  refine ⟨k, ms.reverse, fun n hn => ?_, ?_⟩
  · exact isName_of_mem_components ((hms n (List.mem_reverse.1 hn)).resolve_left List.not_mem_nil)
  · refine (congrArg List.reverse hf).trans ?_
    rw [List.reverse_append, List.reverse_replicate, List.map_reverse]

theorem normalForm_normalSteps (p : Path) : NormalForm p.isAbsolute (normalSteps p.components) := by
  rcases ha : p.isAbsolute with _ | _
  · obtain ⟨k, ns, -, h⟩ := exists_normalSteps_relative ha
    exact h ▸ .relative k ns
  · obtain ⟨ns, -, h⟩ := exists_normalSteps ha
    exact h ▸ .absolute ns

/-- Steps in normal form are kept as they are. -/
theorem normalSteps_of_normalForm {b : Bool} {cs : List Component} (h : NormalForm b cs) :
    normalSteps cs = cs := by
  cases h with
  | absolute ns =>
    rw [normalSteps, foldl_push_of_names, List.reverse_append, ← List.map_reverse,
      List.reverse_reverse]
    rfl
  | relative k ns =>
    have hk := foldl_push_replicate_parent k 0
    rw [List.replicate_zero, Nat.add_zero] at hk
    rw [normalSteps, List.foldl_append, hk, foldl_push_map_name, List.reverse_append,
      List.reverse_replicate, ← List.map_reverse, List.reverse_reverse]

/-- A path of steps `..` and names is spelled by these steps. -/
theorem components_ofComponents_relative {k : Nat} {ns : List (List Char)}
    (hns : ∀ n ∈ ns, IsName n) :
    (ofComponents (List.replicate k .parent ++ ns.map .name)).components =
      List.replicate k .parent ++ ns.map .name := by
  have htext : (List.replicate k Component.parent ++ ns.map Component.name).map Component.text =
      List.replicate k ['.', '.'] ++ ns := by
    rw [List.map_append, List.map_replicate, List.map_map]
    exact congrArg _ (List.map_id ns)
  have hof : ofComponents (List.replicate k .parent ++ ns.map .name) =
      ofPieces false (List.replicate k ['.', '.'] ++ ns) := by
    rw [ofComponents.eq_def]
    split
    · rename_i heq
      have hroot : Component.root ∈ List.replicate k .parent ++ ns.map Component.name :=
        heq ▸ List.mem_cons_self
      simp at hroot
    · rw [htext]
      rfl
  have hpiece : ∀ x ∈ List.replicate k ['.', '.'] ++ ns, '/' ∉ x ∧ Component.ofPiece? x ≠ none := by
    intro x hx
    rcases List.mem_append.1 hx with hx | hx
    · rw [List.eq_of_mem_replicate hx]
      decide
    · exact ⟨(hns x hx).2.1, (hns x hx).ofPiece?_ne_none⟩
  rw [hof, components_ofPieces (fun x hx => (hpiece x hx).1)
    (.inr fun x hx => (hpiece x (List.mem_of_mem_head? hx)).2), List.filterMap_append,
    filterMap_ofPiece? hns, List.filterMap_replicate]
  rfl

/-- The normal form of a path is spelled by its normal steps. -/
theorem components_normalize_eq (p : Path) : p.normalize.components = normalSteps p.components := by
  rcases ha : p.isAbsolute with _ | _
  · obtain ⟨k, ns, hns, h⟩ := exists_normalSteps_relative ha
    rw [normalize, h, components_ofComponents_relative hns]
  · exact components_normalize ha

theorem normalSteps_normalize (p : Path) :
    normalSteps p.normalize.components = normalSteps p.components := by
  rw [components_normalize_eq, normalSteps_of_normalForm (normalForm_normalSteps p)]

theorem normalize_normalize (p : Path) : p.normalize.normalize = p.normalize := by
  rw [normalize, normalSteps_normalize]
  rfl

theorem normalize_normalize_join (p q : Path) :
    (p.normalize.join q).normalize = (p.join q).normalize := by
  rcases hq : q.isAbsolute with _ | _
  · exact normalize_join_congr hq (normalSteps_normalize p)
  · rw [join, join, if_pos hq, if_pos hq]

end Path

/-- What a local reference names is in normal form. -/
theorem Resolver.normalize_of_resolve {r : Resolver} {dir target : Path} {reference : String}
    (h : r.resolve dir reference = .local target) : target.normalize = target := by
  rw [resolve] at h
  dsimp only at h
  split at h
  · cases h
  · cases h
    exact Path.normalize_normalize _

/-- Normal forms have no step `.`, and steps `..` only at the start of a relative path. They are
their own normal forms; a path that is seen from a folder has the same normal form as from the
normal form of the folder; and references name normal forms, which do not depend on how the folder
is spelled. -/
theorem Path.normalize_canonical (p q : Path) :
    NormalForm p.isAbsolute p.normalize.components ∧
      p.normalize.normalize = p.normalize ∧
      (p.join q).normalize = (p.normalize.join q).normalize ∧
      ∀ (r : Resolver) (reference : String),
        (∀ target, r.resolve p reference = .local target → target.normalize = target) ∧
        r.resolve p.normalize reference = r.resolve p reference := by
  refine ⟨?_, normalize_normalize p, (normalize_normalize_join p q).symm, fun r reference => ?_⟩
  · rw [components_normalize_eq]
    exact normalForm_normalSteps p
  · exact ⟨fun target h => Resolver.normalize_of_resolve h,
      r.resolve_of_normalSteps (normalSteps_normalize p) reference⟩

end StaticSite

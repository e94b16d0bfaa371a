import Mathlib.Data.List.Induction
import StaticSite.Proofs.Path.Pieces

/-!
# Normal forms of absolute paths

The normal form of an absolute path is a list of names behind the root (`Path.exists_normalize`). A
relative path that is seen from a normal folder keeps a beginning of the folder and adds names of
its own (`Path.exists_normalize_join`), so that what it leads to below the folder is spelled by
names of its own alone (`Path.exists_below_of_startsWith`).
-/

namespace StaticSite

/-- Steps that are taken from a place below the root lead to a place below the root. Of the names
around only some of the last are left, and the new ones are names among the steps. -/
theorem foldl_push_names {cs : List Component} (h : .root ∉ cs) (ns : List (List Char)) :
    ∃ ts us, us <:+ ns ∧ (∀ t ∈ ts, .name t ∈ cs) ∧
      cs.foldl Component.push (ns.map .name ++ [.root]) = (ts ++ us).map .name ++ [.root] := by
  induction cs generalizing ns with
  | nil => exact ⟨[], ns, List.suffix_rfl, fun _ ht => absurd ht List.not_mem_nil, rfl⟩
  | cons c cs ih =>
    have hcs : .root ∉ cs := fun hc => h (List.mem_cons_of_mem _ hc)
    rw [List.foldl_cons]
    cases c with
    | root => exact absurd (List.mem_cons_self ..) h
    | current =>
      obtain ⟨ts, us, hus, hts, hf⟩ := ih hcs ns
      exact ⟨ts, us, hus, fun t ht => List.mem_cons_of_mem _ (hts t ht), hf⟩
    | parent =>
      rcases ns with _ | ⟨n, ns⟩
      · obtain ⟨ts, us, hus, hts, hf⟩ := ih hcs []
        exact ⟨ts, us, hus, fun t ht => List.mem_cons_of_mem _ (hts t ht), hf⟩
      · obtain ⟨ts, us, hus, hts, hf⟩ := ih hcs ns
        exact ⟨ts, us, hus.trans (List.suffix_cons n ns),
          fun t ht => List.mem_cons_of_mem _ (hts t ht), hf⟩
    | name n =>
      obtain ⟨ts, us, hus, hts, hf⟩ := ih hcs (n :: ns)
      rcases List.suffix_cons_iff.1 hus with rfl | hus
      · refine ⟨ts ++ [n], ns, List.suffix_rfl, fun t ht => ?_, ?_⟩
        · rcases List.mem_append.1 ht with ht | ht
          · exact List.mem_cons_of_mem _ (hts t ht)
          · rw [List.mem_singleton.1 ht]
            exact List.mem_cons_self ..
        · rw [List.append_assoc, List.singleton_append]
          exact hf
      · exact ⟨ts, us, hus, fun t ht => List.mem_cons_of_mem _ (hts t ht), hf⟩

theorem root_not_mem_stepsOf (s : List Char) : .root ∉ stepsOf s := root_not_mem_filterMap _

theorem isName_of_mem_stepsOf {s n : List Char} (h : .name n ∈ stepsOf s) : IsName n := by
  obtain ⟨x, hx, hn⟩ := List.mem_filterMap.1 h
  exact (isName_of_ofPiece? (slash_not_mem hx) hn).2

namespace Path

theorem components_of_isAbsolute {p : Path} (ha : p.isAbsolute = true) :
    p.components = .root :: stepsOf p.chars := by
  rw [components_eq_lead, lead, if_pos ha]
  rfl

theorem push_name (cs : List Component) (n : List Char) :
    Component.push cs (.name n) = .name n :: cs := by
  rcases cs with _ | ⟨_ | _ | _ | _, cs⟩ <;> rfl

theorem isAbsolute_of_components {p : Path} {cs : List Component} (h : p.components = .root :: cs) :
    p.isAbsolute = true := by
  by_contra ha
  have hroot : Component.root ∈ p.lead ++ stepsOf p.chars := by
    rw [← components_eq_lead, h]
    exact List.mem_cons_self ..
  rcases List.mem_append.1 hroot with hroot | hroot
  · rw [lead, if_neg ha] at hroot
    split at hroot <;> simp at hroot
  · exact root_not_mem_stepsOf _ hroot

/-- Names are kept as they are. -/
theorem foldl_push_map_name (ns : List (List Char)) (cs : List Component) :
    (ns.map Component.name).foldl Component.push cs = ns.reverse.map .name ++ cs := by
  induction ns generalizing cs with
  | nil => rfl
  | cons n ns ih =>
    rw [List.map_cons, List.foldl_cons, push_name, ih, List.reverse_cons, List.map_append,
      List.append_assoc]
    rfl

/-- A list of names behind the root is its own normal form. -/
theorem foldl_push_of_names (ns : List (List Char)) :
    (Component.root :: ns.map .name).foldl Component.push [] =
      ns.reverse.map .name ++ [.root] := foldl_push_map_name ns [.root]

/-- A relative path of names is normal. -/
theorem ofComponents_map_name (ns : List (List Char)) :
    ofComponents (ns.map .name) = ofPieces false ns := by
  have h : (ns.map Component.name).map Component.text = ns := by
    rw [List.map_map]
    exact List.map_id ns
  rw [ofComponents.eq_def]
  split
  · rename_i heq
    rcases ns with _ | ⟨n, ns⟩ <;> cases heq
  · rw [h]
    rfl

theorem ofComponents_names (ns : List (List Char)) :
    ofComponents (.root :: ns.map .name) = ofPieces true ns := by
  rw [ofComponents, List.map_map, ofPieces, if_pos rfl]
  congr 3
  exact List.map_id ns

/-- The normal steps of an absolute path are names behind the root. -/
theorem exists_normalSteps {p : Path} (ha : p.isAbsolute = true) :
    ∃ ns : List (List Char), (∀ n ∈ ns, IsName n) ∧
      normalSteps p.components = .root :: ns.map .name := by
  obtain ⟨ts, us, hus, hts, hf⟩ := foldl_push_names (root_not_mem_stepsOf p.chars) []
  obtain rfl := List.suffix_nil.1 hus
  rw [List.append_nil] at hf
  refine ⟨ts.reverse, fun n hn => isName_of_mem_stepsOf (hts n (List.mem_reverse.1 hn)), ?_⟩
  rw [normalSteps, components_of_isAbsolute ha]
  refine (congrArg List.reverse hf).trans ?_
  rw [List.reverse_append, List.map_reverse]
  rfl

/-- The normal form of an absolute path is spelled by names behind the root. -/
theorem exists_normalize {p : Path} (ha : p.isAbsolute = true) :
    ∃ ns : List (List Char), (∀ n ∈ ns, IsName n) ∧ p.normalize = ofPieces true ns := by
  obtain ⟨ns, hns, h⟩ := exists_normalSteps ha
  exact ⟨ns, hns, by rw [normalize, h, ofComponents_names]⟩

theorem components_normalize {p : Path} (ha : p.isAbsolute = true) :
    p.normalize.components = normalSteps p.components := by
  obtain ⟨ns, hns, h⟩ := exists_normalSteps ha
  rw [normalize, h, ofComponents_names, components_ofPieces_names hns]
  rfl

/-- The pieces of a path that is its own normal form are names, unless it is the root. -/
theorem isName_of_mem_pieces {p : Path} (ha : p.isAbsolute = true) (hp : p.normalize = p)
    {x : List Char} (hx : x ∈ p.pieces) (h0 : p.pieces ≠ [[]]) : IsName x := by
  obtain ⟨ns, hns, h⟩ := exists_normalize ha
  rw [← hp, h] at hx h0
  by_cases hne : ns = []
  · subst hne
    exact absurd (by decide) h0
  · rw [pieces_ofPieces (.inl rfl) hne fun n hn => (hns n hn).2.1] at hx
    exact hns x hx

/-- An absolute path is normal if and only if it is spelled by names alone. -/
theorem exists_names_of_normal {p : Path} (ha : p.isAbsolute = true)
    (hp : p.normalize.same p = true) :
    ∃ ns : List (List Char), (∀ n ∈ ns, IsName n) ∧ p.components = .root :: ns.map .name := by
  obtain ⟨ns, hns, h⟩ := exists_normalize ha
  refine ⟨ns, hns, ?_⟩
  rw [← same_iff.1 hp, h, components_ofPieces_names hns]
  rfl

/-- A path seen from a normal folder keeps a beginning of the folder and adds names of its own. -/
theorem exists_normalize_join {p q : Path} {ns : List (List Char)} (hns : ∀ n ∈ ns, IsName n)
    (hp : p.components = .root :: ns.map .name) (hq : q.isAbsolute = false) :
    ∃ js ts, js <+: ns ∧ (∀ t ∈ ts, .name t ∈ stepsOf q.chars) ∧ (∀ n ∈ js ++ ts, IsName n) ∧
      (p.join q).normalize = ofPieces true (js ++ ts) := by
  obtain ⟨ts, us, hus, hts, hf⟩ := foldl_push_names (root_not_mem_stepsOf q.chars) ns.reverse
  refine ⟨us.reverse, ts.reverse, ?_, fun t ht => hts t (List.mem_reverse.1 ht), ?_, ?_⟩
  · rwa [← List.reverse_suffix, List.reverse_reverse]
  · intro n hn
    rcases List.mem_append.1 hn with hn | hn
    · exact hns n (List.mem_reverse.1 (hus.subset (List.mem_reverse.1 hn)))
    · exact isName_of_mem_stepsOf (hts n (List.mem_reverse.1 hn))
  · rw [normalize, normalSteps_join p hq, hp, foldl_push_of_names, hf, ← ofComponents_names,
      List.reverse_append, ← List.map_reverse, List.reverse_append]
    rfl

/-- What a path leads to below a normal folder is spelled by names of the path. -/
theorem exists_below_of_startsWith {p q : Path} {ns : List (List Char)} (hns : ∀ n ∈ ns, IsName n)
    (hp : p.components = .root :: ns.map .name) (hq : q.isAbsolute = false)
    (h : (p.join q).normalize.startsWith p = true) :
    ∃ ms, (∀ m ∈ ms, .name m ∈ stepsOf q.chars) ∧ (∀ m ∈ ms, IsName m) ∧
      (p.join q).normalize = ofPieces true (ns ++ ms) := by
  obtain ⟨js, ts, ⟨ks, rfl⟩, hts, hnames, heq⟩ := exists_normalize_join hns hp hq
  rw [startsWith, List.isPrefixOf_iff_prefix, heq, components_ofPieces_names hnames, hp, if_pos rfl,
    List.singleton_append, List.prefix_cons_inj, List.map_append, List.map_append,
    List.prefix_append_right_inj] at h
  obtain ⟨ms, hms, hks⟩ := List.prefix_map_iff.1 h
  obtain rfl := map_name_injective hks
  obtain ⟨ms, rfl⟩ := hms
  rw [← List.append_assoc] at hnames heq
  exact ⟨ms, fun m hm => hts m (List.mem_append_right ks hm),
    fun m hm => hnames m (List.mem_append_right _ hm), heq⟩

end Path

end StaticSite

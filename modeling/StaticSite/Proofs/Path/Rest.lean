import Mathlib.Data.List.TakeWhile
import StaticSite.Proofs.Path.Pieces

/-!
# The rest of a path behind a folder

The rest behind a folder is a stretch of the pieces of a path. It starts and ends in a component
(`Path.exists_of_stripPrefix?`), and its steps follow those of the folder
(`Path.components_of_stripPrefix?`). If the path ends in names, these are spelled in the rest as
they are in the path (`Path.stripPrefix?_eq_ofPieces`).
-/

namespace StaticSite

namespace Path

theorem stepAt?_eq_none_iff {p : Path} {x : List Char × Nat} :
    p.stepAt? x = none ↔ p.isVoidPiece x.2 x.1 = true := by
  rw [stepAt?]
  constructor
  · intro h
    by_contra hv
    rw [if_neg hv] at h
    split at h
    · cases h
    · split at h <;> cases h
  · intro h
    rw [if_pos h]

/-- Dropping components drops as many steps, and stops at a component. -/
theorem dropComponents_spec (p : Path) (n : Nat) (ps : List (List Char × Nat)) :
    dropComponents n ps p <:+ ps ∧
      (dropComponents n ps p).filterMap p.stepAt? = (ps.filterMap p.stepAt?).drop n ∧
      ∀ x ∈ (dropComponents n ps p).head?, p.stepAt? x ≠ none := by
  induction ps generalizing n with
  | nil => cases n <;> exact ⟨List.suffix_rfl, rfl, fun x h => nomatch h⟩
  | cons x ps ih =>
    rw [dropComponents.eq_def]
    dsimp only
    split
    · rename_i hx
      obtain ⟨h1, h2, h3⟩ := ih n
      refine ⟨h1.trans (List.suffix_cons x ps), ?_, h3⟩
      rw [h2, List.filterMap_cons_none (stepAt?_eq_none_iff.2 hx)]
    · rename_i hx
      obtain ⟨c, hc⟩ := Option.ne_none_iff_exists'.1 (mt stepAt?_eq_none_iff.1 hx)
      cases n with
      | zero =>
        refine ⟨List.suffix_rfl, rfl, fun y hy => ?_⟩
        obtain rfl : x = y := Option.some.inj hy
        rw [hc]
        exact Option.some_ne_none c
      | succ n =>
        obtain ⟨h1, h2, h3⟩ := ih n
        refine ⟨h1.trans (List.suffix_cons x ps), ?_, h3⟩
        rw [h2, List.filterMap_cons_some hc, List.drop_succ_cons]

/-- What stands for nothing is dropped at the end, so that a component comes last. -/
theorem dropVoid_reverse_spec (p : Path) (ps : List (List Char × Nat)) :
    ∃ ys, ps = (p.dropVoid ps.reverse).reverse ++ ys ∧ (∀ y ∈ ys, p.stepAt? y = none) ∧
      ∀ x ∈ (p.dropVoid ps.reverse).reverse.getLast?, p.stepAt? x ≠ none := by
  refine ⟨(ps.reverse.takeWhile fun x => p.isVoidPiece x.2 x.1).reverse, ?_, ?_, ?_⟩
  · rw [← List.reverse_append, dropVoid, List.takeWhile_append_dropWhile, List.reverse_reverse]
  · intro y hy
    rw [List.mem_reverse] at hy
    exact stepAt?_eq_none_iff.2
      (List.mem_takeWhile_imp (p := fun x : List Char × Nat => p.isVoidPiece x.2 x.1) hy)
  · intro x hx
    rw [List.getLast?_reverse, dropVoid] at hx
    have h := List.head?_dropWhile_not (fun x => p.isVoidPiece x.2 x.1) ps.reverse
    rw [hx] at h
    rw [ne_eq, stepAt?_eq_none_iff, Bool.not_eq_true]
    exact h

/-- In an absolute path, and behind the first piece, a piece `.` stands for nothing. -/
theorem stepAt?_of_mem_zipIdx {p : Path} {k : Nat} (h : p.isAbsolute = true ∨ 0 < k)
    {ps : List (List Char)} {x : List Char × Nat} (hx : x ∈ ps.zipIdx k) :
    p.stepAt? x = Component.ofPiece? x.1 :=
  stepAt?_eq (h.imp_right fun h => Nat.lt_of_lt_of_le h (List.mem_zipIdx hx).1) x.1

/-- Behind a folder no piece is the first one of a relative path. -/
theorem stepAt?_of_mem_dropComponents {p : Path} {n : Nat} (h : p.isAbsolute = true ∨ 0 < n)
    {x : List Char × Nat} (hx : x ∈ dropComponents n p.pieces.zipIdx p) :
    p.stepAt? x = Component.ofPiece? x.1 := by
  rcases h with ha | hn
  · exact stepAt?_of_mem_zipIdx (.inl ha) ((dropComponents_spec p n _).1.subset hx)
  · obtain ⟨n, rfl⟩ := Nat.exists_eq_succ_of_ne_zero hn.ne'
    rcases hp : p.pieces with _ | ⟨y, ps⟩
    · rw [hp] at hx
      cases hx
    · rw [hp, List.zipIdx_cons, dropComponents.eq_def] at hx
      dsimp only at hx
      split at hx
      · exact stepAt?_of_mem_zipIdx (.inr Nat.one_pos) ((dropComponents_spec p _ _).1.subset hx)
      · exact stepAt?_of_mem_zipIdx (.inr Nat.one_pos) ((dropComponents_spec p _ _).1.subset hx)

theorem stripPrefix?_eq_none_iff {p q : Path} :
    p.stripPrefix? q = none ↔ p.startsWith q = false := by
  rw [stripPrefix?]
  split
  · rename_i h
    rw [h]
    split <;> simp
  · rename_i h
    simpa using h

theorem startsWith_iff {p q : Path} : p.startsWith q = true ↔ q.components <+: p.components := by
  rw [startsWith, List.isPrefixOf_iff_prefix]

theorem startsWith_of_stripPrefix? {p q r : Path} (h : p.stripPrefix? q = some r) :
    p.startsWith q = true := by
  rw [← Bool.not_eq_false, ← stripPrefix?_eq_none_iff, h]
  exact Option.some_ne_none r

/-- The rest behind a folder is a stretch of the pieces that starts and ends in a component, and its
steps follow those of the folder. -/
theorem exists_of_stripPrefix? {p q r : Path} (hq : q.components ≠ [])
    (h : p.stripPrefix? q = some r) :
    ∃ xs zs ys, p.pieces = xs ++ (zs ++ ys) ∧ (∀ y ∈ ys, Component.ofPiece? y = none) ∧ Tight zs ∧
      p.components = q.components ++ zs.filterMap Component.ofPiece? ∧ r = ofPieces false zs := by
  have hpre := startsWith_iff.1 (startsWith_of_stripPrefix? h)
  rw [stripPrefix?, if_pos (startsWith_iff.2 hpre)] at h
  split at h
  · contradiction
  obtain rfl := Option.some.inj h
  set n := if p.isAbsolute then q.components.length - 1 else q.components.length with hn
  set rest := dropComponents n p.pieces.zipIdx p with hrest
  obtain ⟨⟨pre, hp⟩, hsteps, hhead⟩ := dropComponents_spec p n p.pieces.zipIdx
  obtain ⟨ys, hys, hvoid, hlast⟩ := dropVoid_reverse_spec p rest
  set zs := (p.dropVoid rest.reverse).reverse with hzs
  have hof : ∀ x ∈ rest, p.stepAt? x = Component.ofPiece? x.1 := by
    refine fun x hx => stepAt?_of_mem_dropComponents ?_ hx
    by_cases ha : p.isAbsolute = true
    · exact .inl ha
    · rw [hn, if_neg ha]
      exact .inr (List.length_pos_of_ne_nil hq)
  have hzsub : ∀ x ∈ zs, x ∈ rest := fun x hx => by
    rw [hys]
    exact List.mem_append_left ys hx
  refine ⟨pre.map (·.1), zs.map (·.1), ys.map (·.1), ?_, ?_, ⟨?_, ?_⟩, ?_, ?_⟩
  · rw [← List.map_append, ← List.map_append, ← hys, hp]
    exact (List.zipIdx_map_fst 0 p.pieces).symm
  · intro a ha
    obtain ⟨y, hy, rfl⟩ := List.mem_map.1 ha
    rw [← hof y (by rw [hys]; exact List.mem_append_right zs hy), hvoid y hy]
  · intro a ha
    rw [List.head?_map, Option.mem_def, Option.map_eq_some_iff] at ha
    obtain ⟨x, hx, rfl⟩ := ha
    rw [← hof x (hzsub x (List.mem_of_mem_head? hx))]
    refine hhead x ?_
    rw [← hrest, hys, List.head?_append, hx]
    rfl
  · intro a ha
    rw [List.getLast?_map, Option.mem_def, Option.map_eq_some_iff] at ha
    obtain ⟨x, hx, rfl⟩ := ha
    rw [← hof x (hzsub x (List.mem_of_mem_getLast? hx))]
    exact hlast x hx
  · have hdrop : p.components.drop q.components.length = rest.filterMap p.stepAt? := by
      rw [hrest, hsteps, p.components_eq, anchor, steps]
      by_cases ha : p.isAbsolute = true
      · obtain ⟨c, cs, hc⟩ := List.exists_cons_of_ne_nil hq
        rw [hn, if_pos ha, if_pos ha, hc]
        rfl
      · rw [hn, if_neg ha, if_neg ha]
        rfl
    obtain ⟨cs, hcs⟩ := hpre
    rw [← hcs, List.drop_left] at hdrop
    rw [← hcs, hdrop, hys, List.filterMap_append, List.filterMap_eq_nil_iff.2 hvoid,
      List.append_nil, List.filterMap_map]
    congr 1
    exact List.filterMap_congr fun x hx => hof x (hzsub x hx)
  · rw [ofPieces, if_neg Bool.false_ne_true]

/-- The path without what stands for nothing at its end. -/
theorem stripPrefix?_of_components_eq_nil {p q : Path} (hq : q.components = []) :
    p.stripPrefix? q = some (ofPiecesFromEnd p (p.dropVoid p.piecesFromEnd)) := by
  rw [stripPrefix?, if_pos (startsWith_iff.2 (hq ▸ List.nil_prefix)), hq]

/-- The steps of the rest follow those of the folder. -/
theorem components_of_stripPrefix? {p q r : Path} (h : p.stripPrefix? q = some r) :
    p.components = q.components ++ r.components := by
  by_cases hq : q.components = []
  · rw [stripPrefix?_of_components_eq_nil hq] at h
    obtain rfl := Option.some.inj h
    have hsuffix : p.dropVoid p.piecesFromEnd <:+ p.piecesFromEnd := List.dropWhile_suffix _
    rw [hq, List.nil_append, components_ofPiecesFromEnd hsuffix, List.filterMap_reverse,
      filterMap_dropVoid, ← List.filterMap_reverse, piecesFromEnd, List.reverse_reverse,
      components_eq, steps]
  · obtain ⟨xs, zs, ys, hp, -, ht, hc, rfl⟩ := exists_of_stripPrefix? hq h
    have hs : ∀ x ∈ zs, '/' ∉ x := fun x hx => slash_not_mem_pieces (p := p) (by
      rw [hp]
      exact List.mem_append_right xs (List.mem_append_left ys hx))
    rw [hc, components_ofPieces hs (.inr ht.head)]
    rfl

theorem stripPrefix?_eq_some_of_prefix {p q : Path} (h : q.components <+: p.components) :
    ∃ r, p.stripPrefix? q = some r := by
  rw [← Option.ne_none_iff_exists', ne_eq, stripPrefix?_eq_none_iff, startsWith_iff.2 h]
  exact Bool.noConfusion

/-- Pieces at the end of a path that start in a component are as many as their components say. -/
theorem eq_of_append_eq_append {zs zs' ws ws' : List (List Char)} (hz : Tight zs) (hz' : Tight zs')
    (hc : zs.filterMap Component.ofPiece? = zs'.filterMap Component.ofPiece?)
    (h : ws ++ zs = ws' ++ zs') : zs = zs' := by
  have hnil : ∀ as bs : List (List Char), Tight (as ++ bs) →
      (as ++ bs).filterMap Component.ofPiece? = bs.filterMap Component.ofPiece? → as = [] := by
    intro as bs ht hc
    rw [List.filterMap_append, List.append_left_eq_self] at hc
    rcases as with _ | ⟨a, as⟩
    · rfl
    · obtain ⟨c, ha⟩ := Option.ne_none_iff_exists'.1 (ht.head a rfl)
      rw [List.filterMap_cons_some ha] at hc
      cases hc
  rcases List.append_eq_append_iff.1 h with ⟨as, -, rfl⟩ | ⟨as, -, rfl⟩
  · rw [hnil as zs' hz hc, List.nil_append]
  · rw [hnil as zs hz' hc.symm, List.nil_append]

/-- A path whose last pieces hold all of its components consists of them. -/
theorem eq_ofPieces_of_components {p : Path} {xs zs : List (List Char)} (hz : Tight zs)
    (hp : p.pieces = xs ++ zs) (hc : p.components = zs.filterMap Component.ofPiece?)
    (hne : zs ≠ []) : p = ofPieces false zs := by
  have ha : p.isAbsolute = false := by
    rw [Bool.eq_false_iff]
    intro ha
    refine root_not_mem_filterMap zs ?_
    rw [← hc, components_eq_lead, lead, if_pos ha]
    exact List.mem_cons_self ..
  have hp0 : p.chars ≠ [] := by
    rw [ne_eq, ← components_eq_nil_iff, hc]
    obtain ⟨z, zs, rfl⟩ := List.exists_cons_of_ne_nil hne
    obtain ⟨c, hz⟩ := Option.ne_none_iff_exists'.1 (hz.head z rfl)
    rw [List.filterMap_cons_some hz]
    exact List.cons_ne_nil _ _
  have hh := head?_pieces_ne ha hp0
  have hxs : xs = [] := by
    rcases xs with _ | ⟨x, xs⟩
    · rfl
    · exfalso
      rw [components_eq_lead, lead, ha, if_neg Bool.false_ne_true, stepsOf,
        ← pieces_of_relative ha, hp, List.filterMap_append, ← List.append_assoc,
        List.append_left_eq_self, List.append_eq_nil_iff, List.cons_append, List.head?_cons,
        List.filterMap_eq_nil_iff] at hc
      rw [hp, List.cons_append, List.head?_cons] at hh
      obtain ⟨hlead, hsteps⟩ := hc
      rcases ofPiece?_eq_none_iff.1 (hsteps x (List.mem_cons_self ..)) with rfl | rfl
      · exact hh rfl
      · rw [if_pos rfl] at hlead
        cases hlead
  rw [← ofPieces_pieces p, ha, hp, hxs, List.nil_append]

theorem ofPiecesFromEnd_piecesFromEnd (p : Path) : ofPiecesFromEnd p p.piecesFromEnd = p := by
  have h : p.piecesFromEnd.reverse.map (·.1) = p.pieces := by
    rw [piecesFromEnd, List.reverse_reverse]
    exact List.zipIdx_map_fst 0 p.pieces
  rw [ofPiecesFromEnd, h]
  exact ofPieces_pieces p

theorem dropVoid_of_last {p : Path} (h : ∀ y ∈ p.pieces.getLast?, Component.ofPiece? y ≠ none) :
    p.dropVoid p.piecesFromEnd = p.piecesFromEnd := by
  rcases hp : p.piecesFromEnd with _ | ⟨⟨y, i⟩, ps⟩
  · rfl
  · have hy : p.pieces.getLast? = some y := by
      rw [← List.zipIdx_map_fst 0 p.pieces, List.getLast?_map, ← List.head?_reverse]
      rw [piecesFromEnd] at hp
      rw [hp]
      rfl
    have hv : p.isVoidPiece i y = false := by
      have h' := mt ofPiece?_eq_none_iff.2 (h y hy)
      rw [not_or] at h'
      simp [isVoidPiece, h']
    rw [dropVoid, List.dropWhile_cons, hv, if_neg Bool.false_ne_true]

/-- Behind the last component there is nothing. -/
theorem eq_nil_of_void {ps xs ys : List (List Char)}
    (hlast : ∀ y ∈ ps.getLast?, Component.ofPiece? y ≠ none) (h : ps = xs ++ ys)
    (hvoid : ∀ y ∈ ys, Component.ofPiece? y = none) : ys = [] := by
  rcases List.eq_nil_or_concat' ys with rfl | ⟨ys, y, rfl⟩
  · rfl
  · refine absurd (hvoid y (by simp)) (hlast y ?_)
    rw [h]
    simp

/-- If a path ends in a component, the rest behind a folder consists of its last pieces. -/
theorem exists_suffix_of_stripPrefix? {p q r : Path} (hq : q.components ≠ [])
    (hlast : ∀ y ∈ p.pieces.getLast?, Component.ofPiece? y ≠ none) (h : p.stripPrefix? q = some r) :
    ∃ xs zs, p.pieces = xs ++ zs ∧ Tight zs ∧
      p.components = q.components ++ zs.filterMap Component.ofPiece? ∧ r = ofPieces false zs := by
  obtain ⟨xs, zs, ys, hp, hvoid, ht, hc, hr⟩ := exists_of_stripPrefix? hq h
  rw [← List.append_assoc] at hp
  obtain rfl := eq_nil_of_void hlast hp hvoid
  rw [List.append_nil] at hp
  exact ⟨xs, zs, hp, ht, hc, hr⟩

/-- The rest of a path is spelled as the last pieces of the path that hold its components. -/
theorem stripPrefix?_eq_ofPieces {p q r : Path} {xs zs : List (List Char)} (hz : Tight zs)
    (hp : p.pieces = xs ++ zs) (h : p.stripPrefix? q = some r)
    (hc : r.components = zs.filterMap Component.ofPiece?) : r = ofPieces false zs := by
  by_cases hne : zs = []
  · subst hne
    rw [List.filterMap_nil, components_eq_nil_iff] at hc
    rw [← ofChars_chars r, hc]
    rfl
  have hlast : ∀ y ∈ p.pieces.getLast?, Component.ofPiece? y ≠ none := by
    rw [hp, List.getLast?_append_of_ne_nil _ hne]
    exact hz.last
  by_cases hq : q.components = []
  · rw [stripPrefix?_of_components_eq_nil hq, dropVoid_of_last hlast, ofPiecesFromEnd_piecesFromEnd]
      at h
    obtain rfl := Option.some.inj h
    exact eq_ofPieces_of_components hz hp hc hne
  · obtain ⟨ws, zs', hw, ht, hcs, rfl⟩ := exists_suffix_of_stripPrefix? hq hlast h
    have hs : ∀ x ∈ zs', '/' ∉ x := fun x hx => slash_not_mem_pieces (p := p) (by
      rw [hw]
      exact List.mem_append_right ws hx)
    rw [components_ofPieces hs (.inr ht.head), if_neg Bool.false_ne_true, List.nil_append] at hc
    rw [eq_of_append_eq_append ht hz hc (hw.symm.trans hp)]

/-- What was joined to a folder is the rest behind it. -/
theorem stripPrefix?_join (p : Path) {zs : List (List Char)} (hs : ∀ x ∈ zs, '/' ∉ x)
    (hz : Tight zs) (hne : zs ≠ []) :
    (p.join (ofPieces false zs)).stripPrefix? p = some (ofPieces false zs) := by
  obtain ⟨hq, hqp, hqc, hq0⟩ := ofPieces_tight hz hne hs
  have hc : (p.join (ofPieces false zs)).components =
      p.components ++ zs.filterMap Component.ofPiece? := by
    by_cases hp : p.chars = []
    · rw [join_of_chars_eq_nil hp, components_eq_nil_iff.2 hp, List.nil_append, hqc]
    · rw [components_join hq hp, chars_ofPieces, if_neg Bool.false_ne_true, List.nil_append,
        stepsOf_joinPieces hs]
  obtain ⟨r, hr⟩ := stripPrefix?_eq_some_of_prefix (p := p.join (ofPieces false zs)) (q := p)
    (by rw [hc]; exact List.prefix_append _ _)
  have hrc := components_of_stripPrefix? hr
  rw [hc, List.append_cancel_left_eq] at hrc
  rw [hr, stripPrefix?_eq_ofPieces hz ((pieces_join hq (.inr hq0)).trans (by rw [hqp])) hr hrc.symm]

/-- Different pieces joined to a folder give different paths. -/
theorem join_ofPieces_injective {p : Path} {zs zs' : List (List Char)} (hz : Tight zs)
    (hz' : Tight zs') (hne : zs ≠ []) (hne' : zs' ≠ []) (hs : ∀ x ∈ zs, '/' ∉ x)
    (hs' : ∀ x ∈ zs', '/' ∉ x)
    (h : p.join (ofPieces false zs) = p.join (ofPieces false zs')) : zs = zs' := by
  have h1 := stripPrefix?_join p hs hz hne
  rw [h, stripPrefix?_join p hs' hz' hne', Option.some.injEq] at h1
  rw [← (ofPieces_tight hz hne hs).2.1, ← h1, (ofPieces_tight hz' hne' hs').2.1]

end Path

end StaticSite

import StaticSite.Component.Target

/-!
# Components of paths

What a path names depends on its components alone: paths of the same place have parents of the same
place (`Path.parent?_congr`), and the same references resolve to the same path from folders of the
same place (`Resolver.resolve_congr`).
-/

namespace StaticSite

/-! ## Pieces -/

theorem piecesOf_slash (s : List Char) : piecesOf ('/' :: s) = [] :: piecesOf s := by
  rw [piecesOf, if_pos rfl]

theorem piecesOf_cons {c : Char} (hc : c ≠ '/') (s : List Char) :
    ∃ p ps, piecesOf s = p :: ps ∧ piecesOf (c :: s) = (c :: p) :: ps := by
  rcases h : piecesOf s with _ | ⟨p, ps⟩
  · exact absurd h (piecesOf_ne_nil s)
  · refine ⟨p, ps, rfl, ?_⟩
    rw [piecesOf, if_neg hc, h]

/-- A `/` cuts a text into the pieces on both sides. -/
theorem piecesOf_append (s t : List Char) :
    piecesOf (s ++ '/' :: t) = piecesOf s ++ piecesOf t := by
  induction s with
  | nil => exact piecesOf_slash t
  | cons c s ih =>
    by_cases hc : c = '/'
    · subst hc
      rw [List.cons_append, piecesOf_slash, ih, piecesOf_slash, List.cons_append]
    · obtain ⟨p, ps, hs, hcs⟩ := piecesOf_cons hc s
      obtain ⟨q, qs, hq, hcq⟩ := piecesOf_cons hc (s ++ '/' :: t)
      rw [ih, hs, List.cons_append, List.cons.injEq] at hq
      obtain ⟨rfl, rfl⟩ := hq
      rw [List.cons_append, hcq, hcs, List.cons_append]

theorem piecesOf_eq_singleton {x : List Char} (h : '/' ∉ x) : piecesOf x = [x] := by
  induction x with
  | nil => rfl
  | cons c x ih =>
    have hc : c ≠ '/' := fun hc => h (by rw [hc]; exact List.mem_cons_self ..)
    rw [piecesOf, if_neg hc, ih fun hx => h (List.mem_cons_of_mem _ hx)]

theorem slash_not_mem {s x : List Char} (h : x ∈ piecesOf s) : '/' ∉ x := by
  induction s generalizing x with
  | nil =>
    rw [List.mem_singleton.1 h]
    exact List.not_mem_nil
  | cons c s ih =>
    by_cases hc : c = '/'
    · rw [hc, piecesOf_slash] at h
      rcases List.mem_cons.1 h with rfl | h
      · exact List.not_mem_nil
      · exact ih h
    · obtain ⟨p, ps, hs, hcs⟩ := piecesOf_cons hc s
      rw [hcs] at h
      rw [hs] at ih
      rcases List.mem_cons.1 h with rfl | h
      · intro hx
        rcases List.mem_cons.1 hx with rfl | hx
        · exact hc rfl
        · exact ih (List.mem_cons_self ..) hx
      · exact ih (List.mem_cons_of_mem _ h)

theorem joinPieces_cons {x : List Char} {ps : List (List Char)} (h : ps ≠ []) :
    joinPieces (x :: ps) = x ++ '/' :: joinPieces ps := by
  cases ps with
  | nil => exact absurd rfl h
  | cons y ps => rfl

theorem piecesOf_joinPieces {ps : List (List Char)} (hne : ps ≠ []) (h : ∀ x ∈ ps, '/' ∉ x) :
    piecesOf (joinPieces ps) = ps := by
  induction ps with
  | nil => exact absurd rfl hne
  | cons x ps ih =>
    have hx := h x (List.mem_cons_self ..)
    by_cases hps : ps = []
    · subst hps
      exact piecesOf_eq_singleton hx
    · rw [joinPieces_cons hps, piecesOf_append, piecesOf_eq_singleton hx,
        ih hps fun y hy => h y (List.mem_cons_of_mem _ hy)]
      rfl

theorem joinPieces_isPrefix (ps qs : List (List Char)) :
    joinPieces ps <+: joinPieces (ps ++ qs) := by
  induction ps with
  | nil => exact List.nil_prefix
  | cons x ps ih =>
    rw [List.cons_append]
    by_cases hps : ps = []
    · subst hps
      cases qs with
      | nil => exact List.prefix_rfl
      | cons y qs => exact List.prefix_append x _
    · rw [joinPieces_cons hps, joinPieces_cons (List.append_ne_nil_of_left_ne_nil hps qs)]
      exact (List.prefix_append_right_inj x).2 ((List.prefix_cons_inj _).2 ih)

/-- The steps that the pieces of a text stand for. -/
def stepsOf (s : List Char) : List Component := (piecesOf s).filterMap Component.ofPiece?

theorem stepsOf_append (s t : List Char) : stepsOf (s ++ '/' :: t) = stepsOf s ++ stepsOf t := by
  rw [stepsOf, piecesOf_append, List.filterMap_append]
  rfl

namespace Path

/-! ## Paths of the same place -/

theorem same_iff {p q : Path} : p.same q = true ↔ p.components = q.components := by
  simp [same]

theorem same_refl (p : Path) : p.same p = true := same_iff.2 rfl

theorem same_comm (p q : Path) : p.same q = q.same p := by
  rw [Bool.eq_iff_iff, same_iff, same_iff]
  exact eq_comm

theorem same_trans {p q r : Path} (h : p.same q = true) (h' : q.same r = true) :
    p.same r = true :=
  same_iff.2 ((same_iff.1 h).trans (same_iff.1 h'))

/-- Paths of the same place cannot be told apart by `same`. -/
theorem same_congr {p q : Path} (h : p.same q = true) (r : Path) : r.same p = r.same q := by
  rw [Bool.eq_iff_iff, same_iff, same_iff, same_iff.1 h]

/-! ## Parents -/

/-- The step that a piece at a place of the path stands for. -/
def stepAt? (p : Path) (x : List Char × Nat) : Option Component :=
  if p.isVoidPiece x.2 x.1 then none
  else if x.1 = ['.'] then some .current
  else if x.1 = ['.', '.'] then some .parent
  else some (.name x.1)

/-- The step at the start of an absolute path. -/
def anchor (p : Path) : List Component := if p.isAbsolute then [.root] else []

/-- The steps behind the root. -/
def steps (p : Path) : List Component := p.pieces.zipIdx.filterMap p.stepAt?

theorem stepAt?_eq {p : Path} {k : Nat} (h : p.isAbsolute = true ∨ 0 < k) (x : List Char) :
    p.stepAt? (x, k) = Component.ofPiece? x := by
  have hk : (p.isAbsolute || k != 0) = true := by
    rcases h with h | h
    · rw [h, Bool.true_or]
    · rw [bne_iff_ne.2 (by omega), Bool.or_true]
  rw [stepAt?, Component.ofPiece?, isVoidPiece, hk, Bool.and_true]
  by_cases h0 : x = []
  · simp [h0]
  · by_cases h1 : x = ['.']
    · simp [h1]
    · simp [h0, h1]

theorem filterMap_stepAt? {p : Path} {k : Nat} (h : p.isAbsolute = true ∨ 0 < k)
    (ps : List (List Char)) :
    (ps.zipIdx k).filterMap p.stepAt? = ps.filterMap Component.ofPiece? := by
  induction ps generalizing k with
  | nil => rfl
  | cons x ps ih =>
    rw [List.zipIdx_cons, List.filterMap_cons, List.filterMap_cons, stepAt?_eq h,
      ih (h.imp_right fun _ => Nat.succ_pos k)]

theorem components_eq (p : Path) : p.components = p.anchor ++ p.steps := by
  rw [components, anchor, steps]
  split
  · rename_i ha
    rw [filterMap_stepAt? (.inl ha)]
    rfl
  · rename_i ha
    rcases p.pieces with _ | ⟨x, ps⟩
    · rfl
    · rw [List.zipIdx_cons, List.filterMap_cons, filterMap_stepAt? (.inr (Nat.succ_pos 0)),
        List.nil_append]
      by_cases hx : x = ['.']
      · subst hx
        simp [stepAt?, isVoidPiece, ha]
      · rw [stepAt?, isVoidPiece]
        simp [hx, List.filterMap_cons, Component.ofPiece?]

theorem isAbsolute_ofChars_iff {s : List Char} :
    (ofChars s).isAbsolute = true ↔ s.head? = some '/' := by
  rw [isAbsolute, chars, ofChars, String.toList_ofList, beq_iff_eq]

theorem head?_eq_of_isPrefix {s t : List Char} (h : s <+: t) (hs : s ≠ []) : s.head? = t.head? := by
  obtain ⟨u, rfl⟩ := h
  rcases s with _ | ⟨c, s⟩
  · exact absurd rfl hs
  · rfl

/-- A path that consists of the first pieces of another one is absolute if that one is. -/
theorem ofPiecesFromEnd_spec {p : Path} {ps qs : List (List Char)} (h : p.pieces = ps ++ qs) :
    (ofPiecesFromEnd p ps.zipIdx.reverse).isAbsolute = p.isAbsolute ∧
      (ofPiecesFromEnd p ps.zipIdx.reverse).pieces = piecesOf (joinPieces ps) := by
  have hbody : (ps.zipIdx.reverse.reverse.map (·.1)) = ps := by
    rw [List.reverse_reverse]
    exact List.zipIdx_map_fst 0 ps
  rw [ofPiecesFromEnd, hbody]
  by_cases ha : p.isAbsolute = true
  · have ha' : (ofChars ('/' :: joinPieces ps)).isAbsolute = true := isAbsolute_ofChars_iff.2 rfl
    rw [if_pos ha, pieces, ha, ha']
    refine ⟨rfl, ?_⟩
    rw [if_pos rfl, chars, ofChars, String.toList_ofList, List.tail_cons]
  · have hpre : joinPieces ps <+: p.chars := by
      have h' := joinPieces_isPrefix ps qs
      rwa [← h, pieces, if_neg ha, joinPieces_piecesOf] at h'
    have ha' : ¬(ofChars (joinPieces ps)).isAbsolute = true := by
      intro h'
      rw [isAbsolute_ofChars_iff] at h'
      refine ha ?_
      rw [isAbsolute, beq_iff_eq, ← h']
      refine (head?_eq_of_isPrefix hpre fun h0 => ?_).symm
      rw [h0] at h'
      cases h'
    rw [if_neg ha, pieces, if_neg ha', chars, ofChars, String.toList_ofList]
    refine ⟨?_, rfl⟩
    rw [← ofChars, Bool.eq_false_iff.2 ha, Bool.eq_false_iff.2 ha']

theorem stepAt?_congr {p q : Path} (h : p.isAbsolute = q.isAbsolute) : p.stepAt? = q.stepAt? := by
  funext x
  rw [stepAt?, stepAt?, isVoidPiece, isVoidPiece, h]

theorem slash_not_mem_pieces {p : Path} {x : List Char} (h : x ∈ p.pieces) : '/' ∉ x := by
  rw [pieces] at h
  exact slash_not_mem h

/-- The components of the path that consists of the first pieces of another one. -/
theorem components_ofPiecesFromEnd {p : Path} {xs : List (List Char × Nat)}
    (h : xs <:+ p.piecesFromEnd) :
    (ofPiecesFromEnd p xs).components = p.anchor ++ xs.reverse.filterMap p.stepAt? := by
  obtain ⟨ys, h⟩ := h
  have hz : p.pieces.zipIdx = xs.reverse ++ ys.reverse := by
    rw [← List.reverse_append, h, piecesFromEnd, List.reverse_reverse]
  obtain ⟨ps, qs, hp, hxs, -⟩ := List.zipIdx_eq_append_iff.1 hz
  obtain rfl : xs = ps.zipIdx.reverse := by rw [← hxs, List.reverse_reverse]
  obtain ⟨ha, hpieces⟩ := ofPiecesFromEnd_spec hp
  rw [components_eq, anchor, anchor, ha, steps, hpieces, stepAt?_congr ha, List.reverse_reverse]
  by_cases hps : ps = []
  · subst hps
    simp [joinPieces, piecesOf, stepAt?, isVoidPiece]
  · rw [piecesOf_joinPieces hps fun x hx =>
      slash_not_mem_pieces (p := p) (by rw [hp]; exact List.mem_append_left _ hx)]

theorem filterMap_dropVoid (p : Path) (xs : List (List Char × Nat)) :
    (p.dropVoid xs).filterMap p.stepAt? = xs.filterMap p.stepAt? := by
  induction xs with
  | nil => rfl
  | cons x xs ih =>
    rw [dropVoid, List.dropWhile_cons]
    split
    · rename_i hx
      rw [List.filterMap_cons, stepAt?, if_pos hx]
      exact ih
    · rfl

/-- The parent has the steps but for the last. Without steps there is none. -/
theorem components_parent? (p : Path) :
    p.parent?.map components =
      if p.steps = [] then none else some (p.anchor ++ p.steps.dropLast) := by
  have hsteps : p.steps.reverse = (p.dropVoid p.piecesFromEnd).filterMap p.stepAt? := by
    rw [filterMap_dropVoid, piecesFromEnd, steps, List.filterMap_reverse]
  rw [parent?]
  rcases hd : p.dropVoid p.piecesFromEnd with _ | ⟨x, xs⟩
  · rw [hd, List.filterMap_nil, List.reverse_eq_nil_iff] at hsteps
    rw [if_pos hsteps]
    rfl
  · obtain ⟨c, hc⟩ : ∃ c, p.stepAt? x = some c := by
      have hx : p.isVoidPiece x.2 x.1 = false := by
        have h := List.head?_dropWhile_not (fun x => isVoidPiece p x.2 x.1) p.piecesFromEnd
        rw [dropVoid] at hd
        rwa [hd] at h
      rw [stepAt?, hx]
      split
      · contradiction
      · split
        · exact ⟨_, rfl⟩
        · split <;> exact ⟨_, rfl⟩
    rw [hd, List.filterMap_cons_some hc, ← filterMap_dropVoid, List.reverse_eq_iff,
      List.reverse_cons] at hsteps
    have hxs : p.dropVoid xs <:+ p.piecesFromEnd := by
      refine (List.dropWhile_suffix _).trans ((List.suffix_cons x xs).trans ?_)
      rw [← hd]
      exact List.dropWhile_suffix _
    rw [hsteps, if_neg (List.append_ne_nil_of_right_ne_nil _ (List.cons_ne_nil _ _)),
      List.dropLast_concat, ← List.filterMap_reverse, ← components_ofPiecesFromEnd hxs]
    rfl

theorem root_not_mem_steps (p : Path) : Component.root ∉ p.steps := by
  intro h
  obtain ⟨x, -, hx⟩ := List.mem_filterMap.1 h
  rw [stepAt?] at hx
  split at hx
  · cases hx
  · split at hx
    · cases hx
    · split at hx <;> cases hx

theorem anchor_eq_of_same {p q : Path} (h : p.same q = true) :
    p.anchor = q.anchor ∧ p.steps = q.steps := by
  have hpq := same_iff.1 h
  rw [components_eq, components_eq, anchor, anchor] at hpq
  rw [anchor, anchor]
  split at hpq
  · split at hpq
    · rw [if_pos ‹_›, if_pos ‹_›]
      exact ⟨rfl, (List.cons.inj hpq).2⟩
    · refine absurd ?_ (root_not_mem_steps q)
      rw [List.nil_append] at hpq
      rw [← hpq]
      exact List.mem_cons_self ..
  · split at hpq
    · refine absurd ?_ (root_not_mem_steps p)
      rw [List.nil_append] at hpq
      rw [hpq]
      exact List.mem_cons_self ..
    · rw [if_neg ‹_›, if_neg ‹_›]
      exact ⟨rfl, hpq⟩

/-- Paths of the same place have parents of the same place. -/
theorem parent?_congr {p q : Path} (h : p.same q = true) :
    p.parent?.map components = q.parent?.map components := by
  obtain ⟨ha, hs⟩ := anchor_eq_of_same h
  rw [components_parent?, components_parent?, ha, hs]

/-! ## References -/

/-- A step `.` at the start of a relative path does not count for its normal form. -/
theorem foldl_push_components (p : Path) :
    p.components.foldl Component.push [] =
      (p.anchor ++ stepsOf p.chars).foldl Component.push [] := by
  by_cases ha : p.isAbsolute = true
  · obtain ⟨s, hp⟩ : ∃ s, p.chars = '/' :: s := by
      rw [isAbsolute, beq_iff_eq] at ha
      exact List.head?_eq_some_iff.1 ha
    rw [components, anchor, if_pos ha, if_pos ha, pieces, if_pos ha, stepsOf, hp, piecesOf_slash]
    rfl
  · have hp : p.pieces = piecesOf p.chars := by rw [pieces, if_neg ha]
    rw [components, anchor, if_neg ha, if_neg ha, stepsOf, ← hp, List.nil_append]
    split <;> rename_i hx
    · rw [hx]
      rfl
    · rfl

theorem chars_ofChars (s : List Char) : (ofChars s).chars = s := String.toList_ofList

/-- The steps of a reference follow those of the folder. -/
theorem join_spec (p : Path) {q : Path} (hq : q.isAbsolute = false) :
    (p.join q).anchor = p.anchor ∧
      stepsOf (p.join q).chars = stepsOf p.chars ++ stepsOf q.chars := by
  rw [join, hq, if_neg Bool.false_ne_true]
  rcases hp : p.chars with _ | ⟨c, s⟩
  · rw [if_pos (.inl rfl), List.nil_append, anchor, anchor, isAbsolute, isAbsolute, hp,
      chars_ofChars]
    rw [isAbsolute] at hq
    rw [hq]
    exact ⟨rfl, rfl⟩
  · have hanchor : ∀ t, (ofChars (c :: s ++ t)).anchor = p.anchor := by
      intro t
      rw [anchor, anchor, isAbsolute, isAbsolute, hp, chars_ofChars]
      rfl
    split
    · rename_i h
      refine ⟨hanchor _, ?_⟩
      obtain ⟨t, ht⟩ : ∃ t, c :: s = t ++ ['/'] := by
        rcases h with h | h
        · cases h
        · exact List.getLast?_eq_some_iff.1 h
      rw [chars_ofChars, ht, List.append_assoc, List.singleton_append, stepsOf_append,
        stepsOf_append]
      simp [stepsOf, piecesOf, Component.ofPiece?]
    · refine ⟨hanchor _, ?_⟩
      rw [chars_ofChars, stepsOf_append]

theorem normalSteps_join (p : Path) {q : Path} (hq : q.isAbsolute = false) :
    normalSteps (p.join q).components =
      ((stepsOf q.chars).foldl Component.push (p.components.foldl Component.push [])).reverse := by
  obtain ⟨ha, hs⟩ := p.join_spec hq
  rw [normalSteps, foldl_push_components, ha, hs, ← List.append_assoc, List.foldl_append,
    foldl_push_components]

end Path

/-- A path is seen in the same normal form from folders with the same normal steps. -/
theorem Path.normalize_join_congr {dir dir' q : Path} (hq : q.isAbsolute = false)
    (h : normalSteps dir.components = normalSteps dir'.components) :
    (dir.join q).normalize = (dir'.join q).normalize := by
  rw [normalize, normalize, normalSteps_join _ hq, normalSteps_join _ hq,
    List.reverse_inj.1 h]

/-- References resolve to the same path from folders with the same normal steps. -/
theorem Resolver.resolve_of_normalSteps (r : Resolver) {dir dir' : Path}
    (h : normalSteps dir.components = normalSteps dir'.components) (reference : String) :
    r.resolve dir reference = r.resolve dir' reference := by
  rw [resolve, resolve]
  dsimp only
  split
  · rfl
  · split
    · rfl
    · rename_i hraw
      have hq : (Path.ofChars (Text.trim reference.toList)).isAbsolute = false := by
        rw [Bool.eq_false_iff, ne_eq, Path.isAbsolute_ofChars_iff]
        intro h0
        obtain ⟨rooted, h0⟩ := List.head?_eq_some_iff.1 h0
        exact hraw rooted h0
      rw [Path.normalize_join_congr hq h]

/-- References resolve to the same path from folders of the same place. -/
theorem Resolver.resolve_congr (r : Resolver) {dir dir' : Path} (h : dir.same dir' = true)
    (reference : String) : r.resolve dir reference = r.resolve dir' reference :=
  r.resolve_of_normalSteps (congrArg normalSteps (Path.same_iff.1 h)) reference

/-- An element stands for the same document in all folders of the same place. -/
theorem References.target_congr (r : References) (found : Path → Bool) {folder folder' : Path}
    (h : folder.same folder' = true) (tag : Html.Tag) :
    r.target found folder tag = r.target found folder' tag := by
  simp only [target, r.resolver.resolve_congr h]

end StaticSite

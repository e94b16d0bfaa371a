import Mathlib.Data.List.Basic
import Mathlib.Data.List.Induction
import StaticSite.Proofs.Path.Components

/-!
# Paths in pieces

A path is given by its pieces and by whether it is absolute (`Path.ofPieces_pieces`), and its
components are the steps of its text behind what stands in front of them
(`Path.components_eq_lead`). Pieces that start and end in a component are *tight*; these are the
pieces of paths that operations return. A relative path that is joined to a folder adds its pieces
(`Path.pieces_join`) and its steps (`Path.components_join`).
-/

namespace StaticSite

/-! ## Names -/

/-- A piece that names a file or a folder. -/
def IsName (n : List Char) : Prop := n ≠ [] ∧ '/' ∉ n ∧ n ≠ ['.'] ∧ n ≠ ['.', '.']

instance : DecidablePred IsName := fun _ => inferInstanceAs (Decidable (_ ∧ _ ∧ _ ∧ _))

theorem IsName.ofPiece? {n : List Char} (h : IsName n) : Component.ofPiece? n = some (.name n) := by
  obtain ⟨h0, -, h1, h2⟩ := h
  rw [Component.ofPiece?, if_neg (by rintro (h | h) <;> contradiction), if_neg h2]

theorem IsName.ofPiece?_ne_none {n : List Char} (h : IsName n) :
    Component.ofPiece? n ≠ none := by
  rw [h.ofPiece?]
  exact Option.some_ne_none _

theorem ofPiece?_eq_none_iff {x : List Char} :
    Component.ofPiece? x = none ↔ x = [] ∨ x = ['.'] := by
  rw [Component.ofPiece?]
  split
  · rename_i h
    exact iff_of_true rfl h
  · rename_i h
    refine iff_of_false ?_ h
    split <;> exact Option.some_ne_none _

/-- A piece that is a component is the step `..` or a name. -/
theorem eq_of_ofPiece? {x : List Char} {c : Component} (h : Component.ofPiece? x = some c) :
    c = .parent ∨ c = .name x ∧ x ≠ ['.', '.'] := by
  rw [Component.ofPiece?] at h
  split at h
  · cases h
  · split at h
    · exact .inl (Option.some.inj h).symm
    · exact .inr ⟨(Option.some.inj h).symm, ‹_›⟩

theorem isName_of_ofPiece? {x n : List Char} (hx : '/' ∉ x)
    (h : Component.ofPiece? x = some (.name n)) : x = n ∧ IsName n := by
  obtain hc | ⟨hc, hdots⟩ := eq_of_ofPiece? h
  · cases hc
  · obtain rfl := Component.name.inj hc
    have hvoid := mt ofPiece?_eq_none_iff.2 (h ▸ Option.some_ne_none _)
    exact ⟨rfl, fun h => hvoid (.inl h), hx, fun h => hvoid (.inr h), hdots⟩

theorem filterMap_ofPiece? {ns : List (List Char)} (h : ∀ n ∈ ns, IsName n) :
    ns.filterMap Component.ofPiece? = ns.map .name := by
  induction ns with
  | nil => rfl
  | cons n ns ih =>
    rw [List.filterMap_cons_some (h n (List.mem_cons_self ..)).ofPiece?,
      ih fun m hm => h m (List.mem_cons_of_mem _ hm), List.map_cons]

theorem map_name_injective {ns ms : List (List Char)}
    (h : ns.map Component.name = ms.map Component.name) : ns = ms :=
  List.map_injective_iff.2 (fun _ _ h => Component.name.inj h) h

/-- The pieces start and end in a component. -/
structure Tight (ps : List (List Char)) : Prop where
  /-- The first piece is a component. -/
  head : ∀ x ∈ ps.head?, Component.ofPiece? x ≠ none
  /-- The last piece is a component. -/
  last : ∀ x ∈ ps.getLast?, Component.ofPiece? x ≠ none

theorem Tight.of_isName {ns : List (List Char)} (h : ∀ n ∈ ns, IsName n) : Tight ns := by
  constructor <;> intro x hx
  · exact (h x (List.mem_of_mem_head? hx)).ofPiece?_ne_none
  · exact (h x (List.mem_of_mem_getLast? hx)).ofPiece?_ne_none

/-- The last piece may be replaced by another component. -/
theorem Tight.concat {ws : List (List Char)} {x m : List Char} (h : Tight (ws ++ [x]))
    (hm : Component.ofPiece? m ≠ none) : Tight (ws ++ [m]) := by
  constructor
  · intro y hy
    rcases ws with _ | ⟨w, ws⟩
    · exact Option.some.inj hy ▸ hm
    · exact h.head y hy
  · intro y hy
    rw [List.getLast?_concat] at hy
    exact Option.some.inj hy ▸ hm

theorem Tight.head_ne_nil {ps : List (List Char)} (h : Tight ps) : ps.head? ≠ some [] := by
  intro h0
  exact h.head [] h0 rfl

/-- If the last step is a name, it is the last piece. -/
theorem Tight.exists_concat {zs : List (List Char)} (h : Tight zs) (hs : ∀ x ∈ zs, '/' ∉ x)
    {cs : List Component} {n : List Char}
    (hc : zs.filterMap Component.ofPiece? = cs ++ [.name n]) :
    ∃ ws, zs = ws ++ [n] ∧ ws.filterMap Component.ofPiece? = cs := by
  rcases List.eq_nil_or_concat' zs with rfl | ⟨ws, z, rfl⟩
  · simp at hc
  · obtain ⟨c, hz⟩ := Option.ne_none_iff_exists'.1 (h.last z (by simp))
    rw [List.filterMap_append, List.filterMap_cons_some hz, List.filterMap_nil] at hc
    obtain ⟨hws, hcn⟩ := List.append_inj' hc rfl
    rw [List.singleton_inj.1 hcn] at hz
    obtain ⟨rfl, -⟩ := isName_of_ofPiece? (hs z (by simp)) hz
    exact ⟨ws, rfl, hws⟩

theorem joinPieces_concat (xs : List (List Char)) (n : List Char) :
    joinPieces (xs ++ [n]) = joinPieces (xs ++ [[]]) ++ n := by
  induction xs with
  | nil => rfl
  | cons x xs ih =>
    rw [List.cons_append, List.cons_append, joinPieces_cons (by simp), joinPieces_cons (by simp),
      ih, List.append_assoc, List.cons_append]

theorem mem_joinPieces {ps : List (List Char)} {c : Char} (h : c ∈ joinPieces ps) :
    c = '/' ∨ ∃ p ∈ ps, c ∈ p := by
  induction ps with
  | nil => cases h
  | cons p ps ih =>
    by_cases hps : ps = []
    · subst hps
      exact .inr ⟨p, List.mem_cons_self .., h⟩
    · rw [joinPieces_cons hps, List.mem_append, List.mem_cons] at h
      rcases h with h | h | h
      · exact .inr ⟨p, List.mem_cons_self .., h⟩
      · exact .inl h
      · exact (ih h).imp_right fun ⟨q, hq, hc⟩ => ⟨q, List.mem_cons_of_mem _ hq, hc⟩

theorem joinPieces_append {xs ys : List (List Char)} (hx : xs ≠ []) (hy : ys ≠ []) :
    joinPieces (xs ++ ys) = joinPieces xs ++ '/' :: joinPieces ys := by
  induction xs with
  | nil => exact absurd rfl hx
  | cons x xs ih =>
    by_cases hxs : xs = []
    · subst hxs
      exact joinPieces_cons hy
    · rw [List.cons_append, joinPieces_cons (List.append_ne_nil_of_left_ne_nil hxs ys), ih hxs,
        joinPieces_cons hxs, List.append_assoc, List.cons_append]

theorem mem_of_mem_piecesOf {s x : List Char} (hx : x ∈ piecesOf s) {c : Char} (hc : c ∈ x) :
    c ∈ s := by
  induction s generalizing x with
  | nil => simp_all [piecesOf]
  | cons d s ih =>
    by_cases hd : d = '/'
    · rw [hd, piecesOf_slash] at hx
      rcases List.mem_cons.1 hx with rfl | hx
      · cases hc
      · exact List.mem_cons_of_mem _ (ih hx hc)
    · obtain ⟨p, ps, hs, hds⟩ := piecesOf_cons hd s
      rw [hds] at hx
      rw [hs] at ih
      rcases List.mem_cons.1 hx with rfl | hx
      · rcases List.mem_cons.1 hc with rfl | hc
        · exact List.mem_cons_self ..
        · exact List.mem_cons_of_mem _ (ih (List.mem_cons_self ..) hc)
      · exact List.mem_cons_of_mem _ (ih (List.mem_cons_of_mem _ hx) hc)

/-- A step of a text that is a name stands in the text. -/
theorem mem_of_name_mem_stepsOf {s n : List Char} (h : .name n ∈ stepsOf s) {c : Char}
    (hc : c ∈ n) : c ∈ s := by
  obtain ⟨x, hx, hn⟩ := List.mem_filterMap.1 h
  exact mem_of_mem_piecesOf hx ((isName_of_ofPiece? (slash_not_mem hx) hn).1 ▸ hc)

theorem stepsOf_joinPieces {ps : List (List Char)} (hs : ∀ x ∈ ps, '/' ∉ x) :
    stepsOf (joinPieces ps) = ps.filterMap Component.ofPiece? := by
  by_cases hne : ps = []
  · subst hne
    rfl
  · rw [stepsOf, piecesOf_joinPieces hne hs]

theorem root_not_mem_filterMap (ps : List (List Char)) :
    Component.root ∉ ps.filterMap Component.ofPiece? := by
  intro h
  obtain ⟨x, -, hx⟩ := List.mem_filterMap.1 h
  rcases eq_of_ofPiece? hx with h | ⟨h, -⟩ <;> cases h

namespace Path

theorem chars_of_isAbsolute {p : Path} (ha : p.isAbsolute = true) :
    p.chars = '/' :: p.chars.tail := by
  rw [isAbsolute, beq_iff_eq] at ha
  exact List.eq_cons_of_mem_head? ha

theorem chars_ne_nil {p : Path} (ha : p.isAbsolute = true) : p.chars ≠ [] := by
  rw [chars_of_isAbsolute ha]
  exact List.cons_ne_nil _ _

theorem pieces_ne_nil (p : Path) : p.pieces ≠ [] := by
  rw [pieces]
  exact piecesOf_ne_nil _

/-- The pieces of a relative path are those of its text. -/
theorem pieces_of_relative {p : Path} (ha : p.isAbsolute = false) :
    p.pieces = piecesOf p.chars := by
  rw [pieces, ha, if_neg Bool.false_ne_true]

/-! ## A path from its pieces -/

/-- The path with the given pieces, behind the root if it is absolute. -/
def ofPieces (absolute : Bool) (ps : List (List Char)) : Path :=
  ofChars (if absolute then '/' :: joinPieces ps else joinPieces ps)

theorem ofChars_chars (p : Path) : ofChars p.chars = p := by
  rw [ofChars, chars, String.ofList_toList]

theorem ofPieces_pieces (p : Path) : ofPieces p.isAbsolute p.pieces = p := by
  rw [ofPieces, pieces, joinPieces_piecesOf]
  by_cases ha : p.isAbsolute = true
  · rw [if_pos ha, if_pos ha, ← chars_of_isAbsolute ha, ofChars_chars]
  · rw [if_neg ha, if_neg ha, ofChars_chars]

theorem isAbsolute_ofPieces {b : Bool} {ps : List (List Char)} (h : b = true ∨ ps.head? ≠ some [])
    (hs : ∀ x ∈ ps, '/' ∉ x) : (ofPieces b ps).isAbsolute = b := by
  rw [ofPieces]
  cases b with
  | true => exact isAbsolute_ofChars_iff.2 rfl
  | false =>
    rw [Bool.eq_false_iff, ne_eq, if_neg Bool.false_ne_true, isAbsolute_ofChars_iff]
    rcases ps with _ | ⟨_ | ⟨c, x⟩, ps⟩
    · exact fun h0 => nomatch h0
    · exact absurd rfl (h.resolve_left Bool.false_ne_true)
    · have hc : c ≠ '/' := fun hc => hs _ (List.mem_cons_self ..) (hc ▸ List.mem_cons_self ..)
      cases ps <;> simpa [joinPieces] using hc

theorem pieces_ofPieces {b : Bool} {ps : List (List Char)} (h : b = true ∨ ps.head? ≠ some [])
    (hne : ps ≠ []) (hs : ∀ x ∈ ps, '/' ∉ x) : (ofPieces b ps).pieces = ps := by
  rw [pieces, isAbsolute_ofPieces h hs, ofPieces, chars_ofChars]
  cases b
  · rw [if_neg Bool.false_ne_true, if_neg Bool.false_ne_true, piecesOf_joinPieces hne hs]
  · rw [if_pos rfl, if_pos rfl, List.tail_cons, piecesOf_joinPieces hne hs]

theorem head?_pieces_ne {p : Path} (ha : p.isAbsolute = false) (hp : p.chars ≠ []) :
    p.pieces.head? ≠ some [] := by
  rw [pieces_of_relative ha]
  rcases h : p.chars with _ | ⟨c, s⟩
  · exact absurd h hp
  · have hc : c ≠ '/' := by
      rintro rfl
      rw [isAbsolute, h, List.head?_cons, beq_self_eq_true] at ha
      cases ha
    obtain ⟨x, ps, -, hcs⟩ := piecesOf_cons hc s
    rw [hcs]
    simp

/-! ## Components and pieces -/

/-- The component that stands in front of the steps of the text. -/
def lead (p : Path) : List Component :=
  if p.isAbsolute then [.root] else if p.pieces.head? = some ['.'] then [.current] else []

theorem components_eq_lead (p : Path) : p.components = p.lead ++ stepsOf p.chars := by
  rw [components, lead]
  by_cases ha : p.isAbsolute = true
  · rw [if_pos ha, if_pos ha, pieces, if_pos ha, stepsOf, chars_of_isAbsolute ha, piecesOf_slash]
    rfl
  · have hp := pieces_of_relative (Bool.eq_false_iff.2 ha)
    rw [if_neg ha, if_neg ha, stepsOf, ← hp]
    split
    · rename_i ps hps
      rw [hps, List.head?_cons, if_pos rfl]
      rfl
    · rename_i hps
      rw [if_neg]
      · rfl
      · intro h0
        obtain ⟨ps, h0⟩ := List.head?_eq_some_iff.1 h0
        exact hps ps h0

theorem mem_components_of_mem_stepsOf (p : Path) {c : Component} (h : c ∈ stepsOf p.chars) :
    c ∈ p.components := by
  rw [components_eq_lead]
  exact List.mem_append_right _ h

/-- The components of a path given by pieces that start in a component, or stand behind the root. -/
theorem components_ofPieces {b : Bool} {ps : List (List Char)} (hs : ∀ x ∈ ps, '/' ∉ x)
    (h : b = true ∨ ∀ x ∈ ps.head?, Component.ofPiece? x ≠ none) :
    (ofPieces b ps).components =
      (if b then [.root] else []) ++ ps.filterMap Component.ofPiece? := by
  have h' : b = true ∨ ps.head? ≠ some [] := h.imp_right fun h h0 => h [] h0 rfl
  have hpieces : (ofPieces b ps).pieces.filterMap Component.ofPiece? =
      ps.filterMap Component.ofPiece? := by
    by_cases hne : ps = []
    · subst hne
      rw [pieces, isAbsolute_ofPieces h' hs, ofPieces, chars_ofChars]
      cases b <;> rfl
    · rw [pieces_ofPieces h' hne hs]
  rw [components, isAbsolute_ofPieces h' hs, ← hpieces]
  cases b with
  | true => rfl
  | false =>
    rw [if_neg Bool.false_ne_true, if_neg Bool.false_ne_true, List.nil_append]
    split
    · rename_i qs hqs
      have hne : ps ≠ [] := by
        rintro rfl
        rw [pieces, isAbsolute_ofPieces h' hs, ofPieces, chars_ofChars] at hqs
        exact absurd hqs (by simp [joinPieces, piecesOf])
      rw [pieces_ofPieces h' hne hs] at hqs
      rw [hqs] at h
      exact absurd rfl (h.resolve_left Bool.false_ne_true ['.'] rfl)
    · rfl

theorem components_ofPieces_names {b : Bool} {ns : List (List Char)} (h : ∀ n ∈ ns, IsName n) :
    (ofPieces b ns).components = (if b then [.root] else []) ++ ns.map .name := by
  rw [components_ofPieces (fun n hn => (h n hn).2.1) (.inr (Tight.of_isName h).head),
    filterMap_ofPiece? h]

/-- The path of pieces that start and end in a component. -/
theorem ofPieces_tight {zs : List (List Char)} (hz : Tight zs) (hne : zs ≠ [])
    (hs : ∀ x ∈ zs, '/' ∉ x) :
    (ofPieces false zs).isAbsolute = false ∧ (ofPieces false zs).pieces = zs ∧
      (ofPieces false zs).components = zs.filterMap Component.ofPiece? ∧
      (ofPieces false zs).chars ≠ [] := by
  have ha : (ofPieces false zs).isAbsolute = false :=
    isAbsolute_ofPieces (.inr hz.head_ne_nil) hs
  have hp : (ofPieces false zs).pieces = zs := pieces_ofPieces (.inr hz.head_ne_nil) hne hs
  refine ⟨ha, hp, components_ofPieces hs (.inr hz.head), fun h0 => ?_⟩
  rw [pieces, ha, h0] at hp
  obtain rfl : zs = [[]] := hp.symm
  exact hz.head_ne_nil rfl

theorem isName_of_mem_components {p : Path} {n : List Char} (h : .name n ∈ p.components) :
    IsName n := by
  rw [components_eq_lead, List.mem_append] at h
  rcases h with h | h
  · rw [lead] at h
    split at h
    · simp at h
    · split at h <;> simp at h
  · obtain ⟨x, hx, hn⟩ := List.mem_filterMap.1 h
    exact (isName_of_ofPiece? (slash_not_mem hx) hn).2

/-- A path whose last piece is a component ends in that component. -/
theorem components_of_pieces_concat {p : Path} {xs : List (List Char)} {n : List Char}
    (h : p.pieces = xs ++ [n]) (hn : Component.ofPiece? n ≠ none) :
    ∃ cs c, Component.ofPiece? n = some c ∧ p.components = cs ++ [c] := by
  obtain ⟨c, hc⟩ := Option.ne_none_iff_exists'.1 hn
  have h' : ∃ ys, piecesOf p.chars = ys ++ [n] := by
    rw [pieces] at h
    split at h
    · rename_i ha
      refine ⟨[] :: xs, ?_⟩
      rw [chars_of_isAbsolute ha, piecesOf_slash, h, List.cons_append]
    · exact ⟨xs, h⟩
  obtain ⟨ys, h'⟩ := h'
  refine ⟨p.lead ++ ys.filterMap Component.ofPiece?, c, hc, ?_⟩
  rw [components_eq_lead, stepsOf, h', List.filterMap_append, List.append_assoc]
  simp [hc]

theorem components_eq_nil_iff {p : Path} : p.components = [] ↔ p.chars = [] := by
  constructor
  · intro h
    by_contra hp
    rw [components_eq_lead, List.append_eq_nil_iff, lead] at h
    obtain ⟨hl, hs⟩ := h
    split at hl
    · cases hl
    · rename_i ha
      split at hl
      · cases hl
      · rename_i hd
        have ha' := Bool.eq_false_iff.2 ha
        have h0 := head?_pieces_ne ha' hp
        obtain ⟨x, ps, hq⟩ := List.exists_cons_of_ne_nil p.pieces_ne_nil
        rw [hq, List.head?_cons] at h0 hd
        rw [stepsOf, ← pieces_of_relative ha', hq, List.filterMap_eq_nil_iff] at hs
        rcases ofPiece?_eq_none_iff.1 (hs x (List.mem_cons_self ..)) with rfl | rfl
        · exact h0 rfl
        · exact hd rfl
  · intro h
    rw [components_eq_lead, lead, isAbsolute, pieces, isAbsolute, h]
    rfl

/-! ## Joining -/

/-- The steps of the text are those of the pieces. -/
theorem stepsOf_chars (p : Path) : stepsOf p.chars = p.pieces.filterMap Component.ofPiece? := by
  rw [stepsOf, pieces]
  split
  · rename_i ha
    rw [chars_of_isAbsolute ha, piecesOf_slash]
    rfl
  · rfl

theorem chars_ofPieces (b : Bool) (ps : List (List Char)) :
    (ofPieces b ps).chars = (if b then ['/'] else []) ++ joinPieces ps := by
  rw [ofPieces, chars_ofChars]
  cases b <;> rfl

/-- The pieces in front of a path that is joined to the folder. -/
def folderPieces (p : Path) : List (List Char) :=
  if p.chars = [] ∨ p.chars.getLast? = some '/' then p.pieces.dropLast else p.pieces

theorem pieces_of_getLast?_eq {p : Path} (h : p.chars = [] ∨ p.chars.getLast? = some '/') :
    p.pieces = p.pieces.dropLast ++ [[]] := by
  suffices h' : ∃ ys, p.pieces = ys ++ [[]] by
    obtain ⟨ys, h'⟩ := h'
    rw [h', List.dropLast_concat]
  rcases h with h | h
  · exact ⟨[], by rw [pieces, isAbsolute, h]; rfl⟩
  · obtain ⟨t, ht⟩ := List.getLast?_eq_some_iff.1 h
    rw [pieces]
    split
    · rcases t with _ | ⟨c, t⟩
      · exact ⟨[], by rw [ht]; rfl⟩
      · exact ⟨piecesOf t, by rw [ht, List.cons_append, List.tail_cons, piecesOf_append]; rfl⟩
    · exact ⟨piecesOf t, by rw [ht, piecesOf_append]; rfl⟩

/-- A relative path adds its pieces. -/
theorem join_eq_ofPieces (p : Path) {q : Path} (hq : q.isAbsolute = false) :
    p.join q = ofPieces p.isAbsolute (p.folderPieces ++ q.pieces) := by
  have hqc : q.chars = joinPieces q.pieces := by
    rw [pieces_of_relative hq, joinPieces_piecesOf]
  have hpc := chars_ofPieces p.isAbsolute p.pieces
  rw [ofPieces_pieces] at hpc
  have hcond : (p.chars.isEmpty = true ∨ p.chars.getLast? = some '/') ↔
      (p.chars = [] ∨ p.chars.getLast? = some '/') := by rw [List.isEmpty_iff]
  rw [join, hq, if_neg Bool.false_ne_true, folderPieces, ← ofChars_chars (ofPieces _ _),
    chars_ofPieces]
  split
  · rename_i h
    rw [hcond] at h
    rw [if_pos h, hqc]
    rw [pieces_of_getLast?_eq h] at hpc
    congr 1
    rw [hpc, List.append_assoc]
    congr 1
    by_cases hd : p.pieces.dropLast = []
    · rw [hd]
      rfl
    · rw [joinPieces_append hd q.pieces_ne_nil, joinPieces_append hd (List.cons_ne_nil _ _),
        List.append_assoc]
      rfl
  · rename_i h
    rw [hcond] at h
    rw [if_neg h, joinPieces_append p.pieces_ne_nil q.pieces_ne_nil, hqc, ← List.append_assoc,
      ← hpc]

theorem slash_not_mem_folderPieces {p : Path} {x : List Char} (h : x ∈ p.folderPieces) :
    '/' ∉ x := by
  rw [folderPieces] at h
  split at h
  · exact slash_not_mem_pieces ((List.dropLast_sublist _).subset h)
  · exact slash_not_mem_pieces h

/-- A path joined to a folder starts as the folder does. -/
theorem head?_folderPieces {p : Path} (ha : p.isAbsolute = false) (hp : p.chars ≠ []) :
    p.folderPieces ≠ [] ∧ p.folderPieces.head? = p.pieces.head? := by
  have h0 := head?_pieces_ne ha hp
  rw [folderPieces]
  split
  · rename_i h
    have hd := pieces_of_getLast?_eq h
    rcases hx : p.pieces.dropLast with _ | ⟨x, xs⟩
    · rw [hx] at hd
      rw [hd] at h0
      exact absurd rfl h0
    · rw [hd, hx]
      exact ⟨List.cons_ne_nil _ _, rfl⟩
  · exact ⟨p.pieces_ne_nil, rfl⟩

/-- The pieces of a joined path are those of no other path, unless both paths are empty. -/
theorem join_valid {p q : Path} (hq : q.isAbsolute = false) (h0 : p.chars ≠ [] ∨ q.chars ≠ []) :
    (p.isAbsolute = true ∨ (p.folderPieces ++ q.pieces).head? ≠ some []) ∧
      ∀ x ∈ p.folderPieces ++ q.pieces, '/' ∉ x := by
  refine ⟨?_, fun x hx => ?_⟩
  · by_cases ha : p.isAbsolute = true
    · exact .inl ha
    · right
      have ha' := Bool.eq_false_iff.2 ha
      by_cases hp : p.chars = []
      · have hf : p.folderPieces = [] := by
          rw [folderPieces, if_pos (.inl hp), pieces, isAbsolute, hp]
          rfl
        rw [hf, List.nil_append]
        exact head?_pieces_ne hq (h0.resolve_left (not_not.2 hp))
      · obtain ⟨hne, hh⟩ := head?_folderPieces ha' hp
        rw [List.head?_append_of_ne_nil _ hne, hh]
        exact head?_pieces_ne ha' hp
  · rcases List.mem_append.1 hx with hx | hx
    · exact slash_not_mem_folderPieces hx
    · exact slash_not_mem_pieces hx

theorem isAbsolute_join (p : Path) {q : Path} (hq : q.isAbsolute = false) :
    (p.join q).isAbsolute = p.isAbsolute := by
  have h := (p.join_spec hq).1
  rw [anchor, anchor] at h
  by_cases h1 : (p.join q).isAbsolute = true <;> by_cases h2 : p.isAbsolute = true <;>
    simp_all

theorem pieces_join {p q : Path} (hq : q.isAbsolute = false)
    (h0 : p.chars ≠ [] ∨ q.chars ≠ []) : (p.join q).pieces = p.folderPieces ++ q.pieces := by
  obtain ⟨h, hs⟩ := join_valid hq h0
  rw [join_eq_ofPieces p hq, pieces_ofPieces h _ hs]
  exact List.append_ne_nil_of_right_ne_nil _ q.pieces_ne_nil

/-- A relative path adds its steps to those of a folder. -/
theorem components_join {p q : Path} (hq : q.isAbsolute = false) (hp : p.chars ≠ []) :
    (p.join q).components = p.components ++ stepsOf q.chars := by
  have hlead : (p.join q).lead = p.lead := by
    rw [lead, lead, isAbsolute_join p hq]
    by_cases ha : p.isAbsolute = true
    · rw [if_pos ha, if_pos ha]
    · obtain ⟨hf, hh⟩ := head?_folderPieces (Bool.eq_false_iff.2 ha) hp
      rw [if_neg ha, if_neg ha, pieces_join hq (.inl hp), List.head?_append_of_ne_nil _ hf, hh]
  rw [components_eq_lead, components_eq_lead, hlead, (p.join_spec hq).2, List.append_assoc]

theorem components_join_of_names {p q : Path} {ns : List (List Char)}
    (hq : q.components = ns.map .name) (hp : p.chars ≠ []) :
    (p.join q).components = p.components ++ ns.map .name := by
  have hnot : ∀ c ∈ q.components, ∃ n, c = .name n := by
    rw [hq]
    intro c hc
    obtain ⟨n, -, rfl⟩ := List.mem_map.1 hc
    exact ⟨n, rfl⟩
  have hl := components_eq_lead q
  rw [lead] at hl
  split at hl
  · obtain ⟨n, hn⟩ := hnot .root (hl ▸ List.mem_cons_self ..)
    cases hn
  · rename_i ha
    split at hl
    · obtain ⟨n, hn⟩ := hnot .current (hl ▸ List.mem_cons_self ..)
      cases hn
    · rw [components_join (Bool.eq_false_iff.2 ha) hp, ← hq, hl]
      rfl

theorem join_of_chars_eq_nil {p q : Path} (hp : p.chars = []) : p.join q = q := by
  rw [join]
  split
  · rfl
  · rw [hp, if_pos (.inl rfl), List.nil_append, ofChars_chars]

theorem chars_eq_nil_of_join {p q : Path} (h : (p.join q).chars = []) :
    p.chars = [] ∧ q.chars = [] := by
  rw [join] at h
  split at h
  · rename_i hq
    rw [chars_of_isAbsolute hq] at h
    cases h
  · split at h
    · rwa [chars_ofChars, List.append_eq_nil_iff] at h
    · rw [chars_ofChars, List.append_eq_nil_iff] at h
      cases h.2

/-- Behind a path that ends in a component the pieces follow its own. -/
theorem folderPieces_of_last {p : Path} (hlast : ∀ y ∈ p.pieces.getLast?, y ≠ []) :
    p.folderPieces = p.pieces := by
  rw [folderPieces, if_neg]
  intro h
  refine hlast [] ?_ rfl
  rw [pieces_of_getLast?_eq h, List.getLast?_concat]
  rfl

/-- Names may be joined to a folder one after the other. -/
theorem foldl_join {ns : List (List Char)} (hns : ∀ n ∈ ns, IsName n) (hne : ns ≠ []) (p : Path) :
    ns.foldl (fun q n => q.join (ofChars n)) p = p.join (ofPieces false ns) := by
  induction ns using List.reverseRecOn with
  | nil => exact absurd rfl hne
  | append_singleton ns n ih =>
    have hn : IsName n := hns n (by simp)
    have hns' : ∀ m ∈ ns, IsName m := fun m hm => hns m (List.mem_append_left _ hm)
    rw [List.foldl_append, List.foldl_cons, List.foldl_nil]
    by_cases h0 : ns = []
    · rw [h0]
      rfl
    · have hsingle : ∀ m ∈ [n], IsName m := List.forall_mem_singleton.2 hn
      obtain ⟨ha, hp, -, hc⟩ := ofPieces_tight (Tight.of_isName hns') h0 fun m hm => (hns' m hm).2.1
      obtain ⟨ha', hp', -, -⟩ :=
        ofPieces_tight (Tight.of_isName hsingle) (by simp) fun m hm => (hsingle m hm).2.1
      obtain ⟨ha'', hp'', -, -⟩ :=
        ofPieces_tight (Tight.of_isName hns) hne fun m hm => (hns m hm).2.1
      have hlast : ∀ y ∈ (p.join (ofPieces false ns)).pieces.getLast?, y ≠ [] := by
        rw [pieces_join ha (.inr hc), hp, List.getLast?_append_of_ne_nil _ h0]
        exact fun y hy => (hns' y (List.mem_of_mem_getLast? hy)).1
      rw [ih hns' h0]
      show (p.join (ofPieces false ns)).join (ofPieces false [n]) = _
      rw [join_eq_ofPieces _ ha', folderPieces_of_last hlast, pieces_join ha (.inr hc), hp, hp',
        isAbsolute_join p ha, join_eq_ofPieces p ha'', hp'', List.append_assoc]

end Path

end StaticSite

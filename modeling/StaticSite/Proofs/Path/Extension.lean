import StaticSite.Layout
import StaticSite.Proofs.Path.Rest

/-!
# File names and extensions

Another extension changes the last piece of a path and leaves the others as they are
(`Path.withExtension_eq`). A file whose name is two dots and an extension is the exception to what
the operation is for: behind the cut its name is the step `..`, which has no extension.
-/

namespace StaticSite

open StaticSite.Path

/-! ## The parts of a file name -/

theorem splitExtension_append {stem ext : List Char} (hstem : stem ≠ []) (hext : '.' ∉ ext) :
    splitExtension (stem ++ '.' :: ext) = (stem, some ext) := by
  have hafter : ((stem ++ '.' :: ext).reverse.takeWhile (· != '.')).reverse = ext := by
    rw [List.reverse_append, List.reverse_cons, List.append_assoc, List.singleton_append,
      List.takeWhile_append_of_pos, List.takeWhile_cons]
    · simp
    · intro c hc
      rw [List.mem_reverse] at hc
      exact bne_iff_ne.2 fun h => hext (h ▸ hc)
  have hbefore :
      (stem ++ '.' :: ext).take ((stem ++ '.' :: ext).length - ext.length - 1) = stem := by
    rw [List.length_append, List.length_cons, show stem.length + (ext.length + 1) - ext.length - 1 =
      stem.length by omega, List.take_left]
  rw [splitExtension, hafter, hbefore, if_neg]
  rw [List.isEmpty_iff, not_or]
  refine ⟨fun h => ?_, hstem⟩
  rw [List.length_append, List.length_cons] at h
  omega

theorem eq_of_splitExtension {n ext : List Char} (h : (splitExtension n).2 = some ext) :
    ∃ stem, n = stem ++ '.' :: ext ∧ stem ≠ [] ∧ '.' ∉ ext := by
  rw [splitExtension] at h
  split at h
  · cases h
  rename_i hlen
  rw [not_or, List.isEmpty_iff] at hlen
  obtain rfl := Option.some.inj h
  have hsplit := List.takeWhile_append_dropWhile (p := (· != '.')) (l := n.reverse)
  have hdot := fun c => List.mem_takeWhile_imp (p := (· != '.')) (l := n.reverse) (x := c)
  clear h
  generalize n.reverse.takeWhile (· != '.') = after at *
  rcases hd : n.reverse.dropWhile (· != '.') with _ | ⟨c, s⟩
  · rw [hd, List.append_nil] at hsplit
    rw [hsplit, List.reverse_reverse] at hlen
    exact absurd rfl hlen.1
  · obtain rfl : c = '.' := by
      have hc := List.head?_dropWhile_not (· != '.') n.reverse
      rw [hd] at hc
      simpa using hc
    rw [hd] at hsplit
    have hn := congrArg List.reverse hsplit
    rw [List.reverse_append, List.reverse_cons, List.append_assoc, List.singleton_append,
      List.reverse_reverse] at hn
    refine ⟨s.reverse, hn.symm, ?_, ?_⟩
    · rintro hs
      refine hlen.2 ?_
      rw [hs, List.nil_append] at hn
      rw [← hn]
      simp
    · intro hc
      rw [List.mem_reverse] at hc
      simpa using hdot _ hc

namespace Path

theorem fileName?_eq_some_iff {p : Path} {n : List Char} :
    p.fileName? = some n ↔ p.components.getLast? = some (.name n) := by
  rw [fileName?]
  constructor
  · intro h
    split at h
    · rename_i hc
      rw [hc, Option.some.inj h]
    · cases h
  · intro h
    rw [h]

theorem extension?_eq_some_iff {p : Path} {ext : String} :
    p.extension? = some ext ↔
      ∃ stem, p.fileName? = some (stem ++ '.' :: ext.toList) ∧ stem ≠ [] ∧ '.' ∉ ext.toList := by
  rw [extension?, Option.bind_eq_some_iff]
  constructor
  · rintro ⟨n, hn, h⟩
    obtain ⟨x, hx, rfl⟩ := Option.map_eq_some_iff.1 h
    obtain ⟨stem, rfl, hstem, hext⟩ := eq_of_splitExtension hx
    rw [String.toList_ofList]
    exact ⟨stem, hn, hstem, hext⟩
  · rintro ⟨stem, hn, hstem, hext⟩
    refine ⟨_, hn, ?_⟩
    rw [splitExtension_append hstem hext]
    simp

/-! ## Another extension -/

/-- The last piece of a path whose file name had the stem, with another extension. Of a name that
is two dots and an extension only the dots are left. -/
def nameWith (stem extension : List Char) : List Char :=
  if stem = ['.'] then ['.', '.'] else stem ++ '.' :: extension

theorem nameWith_eq_iff {stem extension : List Char} (he : extension ≠ []) :
    nameWith stem extension = stem ++ '.' :: extension ↔ stem ≠ ['.'] := by
  rw [nameWith]
  split
  · rename_i h
    rw [h]
    simpa using he.symm
  · rename_i h
    exact iff_of_true rfl h

theorem slash_not_mem_nameWith {stem extension : List Char} (hs : '/' ∉ stem)
    (he : '/' ∉ extension) : '/' ∉ nameWith stem extension := by
  rw [nameWith]
  split
  · decide
  · simp [hs, he]

theorem isName_of_stem {stem ext : List Char} (h0 : stem ≠ []) (h1 : stem ≠ ['.'])
    (hs : '/' ∉ stem) (he : '/' ∉ ext) : IsName (stem ++ '.' :: ext) := by
  refine ⟨by simp, by simp [hs, he], fun h => ?_, fun h => ?_⟩
  · rcases stem with _ | ⟨c, stem⟩
    · exact h0 rfl
    · simpa using congrArg List.length h
  · rcases stem with _ | ⟨c, _ | ⟨d, stem⟩⟩
    · exact h0 rfl
    · rw [List.cons_append, List.cons.injEq] at h
      exact h1 (by rw [h.1])
    · have := congrArg List.length h
      simp at this

theorem ofPiece?_ne_none {x : List Char} (h : 2 ≤ x.length) : Component.ofPiece? x ≠ none := by
  rw [ne_eq, ofPiece?_eq_none_iff]
  rintro (rfl | rfl) <;> simp at h

theorem two_le_length_append {stem : List Char} (h0 : stem ≠ []) (extension : List Char) :
    2 ≤ (stem ++ '.' :: extension).length := by
  have := List.length_pos_of_ne_nil h0
  simp
  omega

theorem ofPiece?_nameWith {stem : List Char} (h0 : stem ≠ []) (extension : List Char) :
    Component.ofPiece? (nameWith stem extension) ≠ none := by
  rw [nameWith]
  split
  · decide
  · exact ofPiece?_ne_none (two_le_length_append h0 extension)

theorem fileName?_of_pieces {p : Path} {xs : List (List Char)} {n : List Char}
    (hp : p.pieces = xs ++ [n]) (hn : IsName n) : p.fileName? = some n := by
  obtain ⟨cs, c, hc, hcs⟩ := components_of_pieces_concat hp hn.ofPiece?_ne_none
  rw [hn.ofPiece?] at hc
  obtain rfl := Option.some.inj hc
  rw [fileName?_eq_some_iff, hcs, List.getLast?_concat]

/-- The last piece of a path may be replaced by another one. -/
theorem pieces_ofPieces_concat {p : Path} {xs : List (List Char)} {n m : List Char}
    (hp : p.pieces = xs ++ [n]) (hn : n ≠ []) (hm : m ≠ []) (hs : '/' ∉ m) :
    (ofPieces p.isAbsolute (xs ++ [m])).isAbsolute = p.isAbsolute ∧
      (ofPieces p.isAbsolute (xs ++ [m])).pieces = xs ++ [m] := by
  have hvalid : p.isAbsolute = true ∨ (xs ++ [m]).head? ≠ some [] := by
    by_cases ha : p.isAbsolute = true
    · exact .inl ha
    · right
      have hp0 : p.chars ≠ [] := by
        intro h0
        rw [pieces, if_neg ha, h0] at hp
        rcases xs with _ | ⟨x, xs⟩
        · exact hn (List.cons.inj hp).1.symm
        · simpa [piecesOf] using congrArg List.length hp
      have hh := head?_pieces_ne (Bool.eq_false_iff.2 ha) hp0
      rw [hp] at hh
      rcases xs with _ | ⟨x, xs⟩
      · simpa using hm
      · simpa using hh
  have hslash : ∀ x ∈ xs ++ [m], '/' ∉ x := by
    intro x hx
    rcases List.mem_append.1 hx with hx | hx
    · exact slash_not_mem_pieces (p := p) (by rw [hp]; exact List.mem_append_left _ hx)
    · rwa [List.mem_singleton.1 hx]
  exact ⟨isAbsolute_ofPieces hvalid hslash, pieces_ofPieces hvalid (by simp) hslash⟩

theorem chars_of_pieces_concat {p : Path} {xs : List (List Char)} {a b : List Char}
    (hp : p.pieces = xs ++ [a ++ b]) :
    p.chars = (ofPieces p.isAbsolute (xs ++ [a])).chars ++ b := by
  have h := chars_ofPieces p.isAbsolute p.pieces
  rw [ofPieces_pieces, hp, joinPieces_concat] at h
  rw [h, chars_ofPieces, joinPieces_concat xs a]
  simp

/-- An extension that was cut off behind its dot is replaced. -/
theorem setExtension_eq {p : Path} {xs : List (List Char)} {stem : List Char}
    (hp : p.pieces = xs ++ [stem ++ ['.']]) (hstem : stem ≠ []) (e : String) :
    p.setExtension e = ofPieces p.isAbsolute (xs ++ [nameWith stem e.toList]) := by
  have hslash : '/' ∉ stem := fun h => slash_not_mem_pieces (p := p) (x := stem ++ ['.'])
    (by rw [hp]; simp) (List.mem_append_left _ h)
  rw [setExtension, nameWith]
  by_cases h1 : stem = ['.']
  · have hparent : p.fileName? = none := by
      obtain ⟨cs, c, hc, hcs⟩ := components_of_pieces_concat hp (by rw [h1]; decide)
      rw [h1] at hc
      obtain rfl : c = .parent := by simpa [Component.ofPiece?] using hc.symm
      rw [fileName?, hcs, List.getLast?_concat]
    have hself := ofPieces_pieces p
    rw [hp, h1] at hself
    rw [hparent, if_pos h1]
    exact hself.symm
  · have hn : IsName (stem ++ ['.']) := isName_of_stem hstem h1 hslash (by simp)
    have hlast : ∀ y ∈ p.pieces.getLast?, Component.ofPiece? y ≠ none := by
      rw [hp, List.getLast?_concat]
      rintro y hy
      exact Option.some.inj hy ▸ hn.ofPiece?_ne_none
    have hfrom : p.piecesFromEnd = (stem ++ ['.'], xs.length) :: xs.zipIdx.reverse := by
      rw [piecesFromEnd, hp, List.zipIdx_append]
      simp
    rw [fileName?_of_pieces hp hn, dropVoid_of_last hlast, hfrom, if_neg h1]
    dsimp only
    rw [splitExtension_append hstem List.not_mem_nil, ofPiecesFromEnd, ofPieces, List.reverse_cons,
      List.reverse_reverse, List.map_append, List.zipIdx_map_fst]
    rfl

/-- The path with another extension has the same pieces but for the last. -/
theorem withExtension_eq {p : Path} {xs : List (List Char)} {stem ext : List Char}
    (hp : p.pieces = xs ++ [stem ++ '.' :: ext]) (hn : IsName (stem ++ '.' :: ext))
    (hstem : stem ≠ []) (hext : '.' ∉ ext) (e : String) :
    p.withExtension e = ofPieces p.isAbsolute (xs ++ [nameWith stem e.toList]) := by
  have hold : p.extension? = some (String.ofList ext) := by
    rw [extension?, fileName?_of_pieces hp hn, Option.bind_some, splitExtension_append hstem hext]
    rfl
  -- what is left before the extension, with its dot
  have hcut : ofChars (p.chars.take (p.chars.length - (String.ofList ext).length)) =
      ofPieces p.isAbsolute (xs ++ [stem ++ ['.']]) := by
    rw [chars_of_pieces_concat (a := stem ++ ['.']) (b := ext) (by simpa using hp),
      List.length_append, String.length_ofList, Nat.add_sub_cancel, List.take_left, ofChars_chars]
  have hslash : '/' ∉ stem ++ ['.'] := by
    have := hn.2.1
    simp_all
  obtain ⟨hca, hcp⟩ := pieces_ofPieces_concat hp hn.1 (m := stem ++ ['.']) (by simp) hslash
  rw [withExtension, hold]
  dsimp only
  rw [hcut, setExtension_eq hcp hstem, hca]

end Path

/-- The source of a page is a file with the extension `html` or `md`. -/
theorem isPageSource_iff {p : Path} :
    isPageSource p = true ↔ ∃ stem ext, p.fileName? = some (stem ++ '.' :: ext) ∧ stem ≠ [] ∧
      (ext = ['h', 't', 'm', 'l'] ∨ ext = ['m', 'd']) := by
  rw [isPageSource, Bool.or_eq_true, beq_iff_eq, beq_iff_eq, extension?_eq_some_iff,
    extension?_eq_some_iff]
  constructor
  · rintro (⟨stem, hn, h0, -⟩ | ⟨stem, hn, h0, -⟩)
    · exact ⟨stem, _, hn, h0, .inl rfl⟩
    · exact ⟨stem, _, hn, h0, .inr rfl⟩
  · rintro ⟨stem, ext, hn, h0, rfl | rfl⟩
    · exact .inl ⟨stem, hn, h0, by decide⟩
    · exact .inr ⟨stem, hn, h0, by decide⟩

end StaticSite

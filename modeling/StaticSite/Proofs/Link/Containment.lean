import StaticSite.Proofs.Link.Place
import StaticSite.Proofs.Path.Decoding

/-!
# Moved links stay in the site

The address of a moved link starts with `/` and is spelled by names. It can lead out of the site
only through a backslash, which is turned into a `/` after the link was checked, and the source that
is reported for it only through an escape, which is decoded after the link was checked
(`Relinker.outcome_moved_inside`).
-/

namespace StaticSite

open StaticSite.Text StaticSite.Path

/-- Whether a text has a piece `.` or `..`. -/
def HasDotPiece (s : List Char) : Prop := ['.'] ∈ piecesOf s ∨ ['.', '.'] ∈ piecesOf s

instance (s : List Char) : Decidable (HasDotPiece s) := inferInstanceAs (Decidable (_ ∨ _))

theorem hasDotPiece_append_slash {s t : List Char} :
    HasDotPiece (s ++ '/' :: t) ↔ HasDotPiece s ∨ HasDotPiece t := by
  simp only [HasDotPiece, piecesOf_append, List.mem_append]
  tauto

theorem IsName.not_hasDotPiece {n : List Char} (h : IsName n) : ¬HasDotPiece n := by
  obtain ⟨-, hs, h1, h2⟩ := h
  rw [HasDotPiece, piecesOf_eq_singleton hs, List.mem_singleton, List.mem_singleton]
  exact not_or.2 ⟨h1.symm, h2.symm⟩

/-- A text that is cut at `/` has such a piece if and only if a part has one. -/
theorem hasDotPiece_slashed_joinPieces (ns : List (List Char)) :
    HasDotPiece (slashed (joinPieces ns)) ↔ ∃ n ∈ ns, HasDotPiece (slashed n) := by
  induction ns with
  | nil => simp [joinPieces, slashed, HasDotPiece, piecesOf]
  | cons n ns ih =>
    by_cases hns : ns = []
    · subst hns
      simp [joinPieces]
    · rw [joinPieces_cons hns, slashed_append_slash, hasDotPiece_append_slash, ih]
      simp

theorem isExternalLink_slash (s : List Char) :
    isExternalLink ('/' :: s) = true ↔ s.head? = some '/' := by
  rw [isExternalLink.eq_def]
  split
  · rename_i heq
    rw [List.cons.injEq] at heq
    simp [heq.2]
  · rename_i hne
    have hs : s.head? ≠ some '/' := by
      intro h
      obtain ⟨t, rfl⟩ := List.head?_eq_some_iff.1 h
      exact hne t rfl
    refine iff_of_false ?_ hs
    simp [isSchemeChar]

namespace Relinker

variable {r : Relinker} {href : List Char}

theorem head?_linkSuffix {c : Char} (h : c ∈ (linkSuffix href).head?) : startsSuffix c = true := by
  rw [linkSuffix, Option.mem_def] at h
  have hc := List.head?_dropWhile_not (!startsSuffix ·) (trim href)
  rw [h] at hc
  simpa using hc

theorem startsSuffix_of_mem_linkPath {c : Char} (h : c ∈ linkPath href) :
    startsSuffix c = false := by
  rw [linkPath] at h
  simpa using List.mem_takeWhile_imp h

/-- What a moved link has in front of its query and fragment. -/
theorem takeWhile_url {names : List (List Char)}
    (hsteps : ∀ n ∈ names, .name n ∈ stepsOf (linkPath href)) :
    ('/' :: slashed (joinPieces names) ++ linkSuffix href).takeWhile (!startsSuffix ·) =
      '/' :: slashed (joinPieces names) := by
  have hfront : ∀ c ∈ '/' :: slashed (joinPieces names), (!startsSuffix c) = true := by
    intro c hc
    rcases List.mem_cons.1 hc with rfl | hc
    · decide
    · obtain ⟨d, hd, rfl⟩ := List.mem_map.1 hc
      split
      · decide
      · rcases mem_joinPieces hd with rfl | ⟨n, hn, hd⟩
        · decide
        · rw [startsSuffix_of_mem_linkPath (mem_of_name_mem_stepsOf (hsteps n hn) hd)]
          rfl
  rw [List.takeWhile_append_of_pos hfront]
  rcases hs : linkSuffix href with _ | ⟨c, s⟩
  · simp
  · have hhead : c ∈ (linkSuffix href).head? := by
      rw [hs]
      rfl
    have hc := head?_linkSuffix hhead
    simp [hc]

/-- A moved link leaves the site if and only if its place starts with a backslash. -/
theorem isExternalLink_url {names : List (List Char)} (hnames : ∀ n ∈ names, IsName n) :
    isExternalLink ('/' :: slashed (joinPieces names) ++ linkSuffix href) = true ↔
      (joinPieces names).head? = some '\\' := by
  rw [List.cons_append, isExternalLink_slash]
  rcases hj : joinPieces names with _ | ⟨c, s⟩
  · refine iff_of_false (fun h => ?_) (by simp)
    exact absurd (head?_linkSuffix h) (by decide)
  · have hc : c ≠ '/' := by
      rintro rfl
      rcases names with _ | ⟨_ | ⟨d, n⟩, names⟩
      · cases hj
      · exact (hnames _ (List.mem_cons_self ..)).1 rfl
      · have hd : d = '/' := by cases names <;> simp_all [joinPieces]
        exact (hnames _ (List.mem_cons_self ..)).2.1 (hd ▸ List.mem_cons_self ..)
    simp [slashed, hc]

/-- The source that a moved link leads to lies in the base folder, unless an escape stands for `.`
or `/`, or the link spells a name of the base folder that has a `%`. -/
theorem startsWith_decodedTarget (ha : r.base.isAbsolute = true)
    (hp : ∀ n, .name n ∈ r.base.components → .name n ∈ stepsOf (linkPath href) → '%' ∉ n)
    (hl : (linkPath href).head? ≠ some '/') {place : Path} (h : r.place? href = some place)
    (hdot : escapes '.' (linkPath href) = false) (hslash : escapes '/' (linkPath href) = false) :
    (r.decodedTarget href).startsWith r.base = true := by
  obtain ⟨rest, hrest, -⟩ := Option.map_eq_some_iff.1 h
  have hin := startsWith_of_stripPrefix? hrest
  rw [decodedTarget]
  rcases hd : percentDecode? (linkPath href) with _ | d
  · exact hin
  · rw [percentDecode?_eq_some_iff] at hd
    have hout := startsWith_of_percentBytes ha hp hl hd hslash hdot hin
    rwa [ofChars, String.ofList_toList] at hout

/-- A moved link starts with `/`. It leaves the site, or has a step `.` or `..`, if and only if its
place does so once a `/` stands for each backslash. The source that it leads to lies in the base
folder, unless an escape stands for `.` or `/`, or the link climbs out of a folder with a `%` in its
name and comes back. -/
theorem outcome_moved_inside (ha : r.base.isAbsolute = true)
    (hb : r.base.normalize.same r.base = true) {url : String} {target : Path}
    (h : r.outcome href = .moved url target) :
    url.toList.head? = some '/' ∧
      (∃ names : List (List Char), (∀ n ∈ names, IsName n) ∧
        r.place? href = some (ofPieces false names) ∧
        (isExternalLink url.toList = true ↔ (joinPieces names).head? = some '\\') ∧
        (HasDotPiece (url.toList.takeWhile (!startsSuffix ·)) ↔
          ∃ n ∈ names, HasDotPiece (slashed n))) ∧
      ('\\' ∉ linkPath href → isExternalLink url.toList = false ∧
        ¬HasDotPiece (url.toList.takeWhile (!startsSuffix ·))) ∧
      (escapes '.' (linkPath href) = false → escapes '/' (linkPath href) = false →
        (∀ n, .name n ∈ r.base.components → .name n ∈ stepsOf (linkPath href) → '%' ∉ n) →
        target.startsWith r.base = true) := by
  obtain ⟨hfixed, place, hplace, hurl, rfl⟩ := outcome_eq_moved_iff.1 h
  obtain ⟨ns, hns, hbase⟩ := exists_names_of_normal ha hb
  have hl := head?_linkPath hfixed
  obtain ⟨ms, names, -, -, hsteps, hnames, rfl, -⟩ := exists_place hns hbase hl hplace
  have hurl' : url.toList = '/' :: slashed (joinPieces names) ++ linkSuffix href := by
    rw [hurl, relativeText_ofPieces]
  have hext : isExternalLink url.toList = true ↔ (joinPieces names).head? = some '\\' := by
    rw [hurl', isExternalLink_url hnames]
  have hdots : HasDotPiece (url.toList.takeWhile (!startsSuffix ·)) ↔
      ∃ n ∈ names, HasDotPiece (slashed n) := by
    have hroot : HasDotPiece ('/' :: slashed (joinPieces names)) ↔
        HasDotPiece [] ∨ HasDotPiece (slashed (joinPieces names)) :=
      hasDotPiece_append_slash (s := [])
    rw [hurl', takeWhile_url hsteps, hroot, hasDotPiece_slashed_joinPieces,
      or_iff_right (by decide)]
  refine ⟨by rw [hurl]; rfl, ⟨names, hnames, hplace, hext, hdots⟩, fun hback => ?_,
    fun hdot hslash hp => startsWith_decodedTarget ha hp hl hplace hdot hslash⟩
  constructor
  · rw [Bool.eq_false_iff, ne_eq, hext]
    exact fun hhead => backslash_not_mem_joinPieces hback hsteps (List.mem_of_mem_head? hhead)
  · rw [hdots]
    rintro ⟨n, hn, hd⟩
    rw [slashed_of_not_mem fun hc => hback (mem_of_name_mem_stepsOf (hsteps n hn) hc)] at hd
    exact (hnames n hn).not_hasDotPiece hd

/-- The links of the pages of a site below `/site/src`. -/
def sampleRelinker : Relinker := ⟨⟨"/site/src"⟩, ⟨"pages"⟩⟩

/-- An escape in a name, and dots behind a `?`, do no harm. -/
theorem outcome_moved_inside_sample :
    isExternalLink "/caf%C3%A9.html?x=..#/../a".toList = false ∧
      ¬HasDotPiece ("/caf%C3%A9.html?x=..#/../a".toList.takeWhile (!startsSuffix ·)) ∧
      startsWith ⟨"/site/src/pages/café.html"⟩ sampleRelinker.base = true := by
  have hbase : sampleRelinker.base.components =
      [.root, .name "site".toList, .name "src".toList] := by decide +kernel
  have hmoved : sampleRelinker.outcome " ./pages//blog/../caf%C3%A9.html?x=..#/../a".toList =
      .moved "/caf%C3%A9.html?x=..#/../a" ⟨"/site/src/pages/café.html"⟩ := by decide +kernel
  obtain ⟨-, -, hurl, htarget⟩ :=
    outcome_moved_inside (by decide +kernel) (by decide +kernel) hmoved
  obtain ⟨hext, hdots⟩ := hurl (by decide +kernel)
  refine ⟨hext, hdots, htarget (by decide +kernel) (by decide +kernel) fun n hn _ => ?_⟩
  rw [hbase] at hn
  simp only [List.mem_cons, Component.name.injEq, reduceCtorEq, List.not_mem_nil, or_false,
    false_or] at hn
  rcases hn with rfl | rfl <;> decide

/-- Backslashes make an address of another site, and one with steps `..`, and escapes make a source
outside the base folder. -/
theorem outcome_moves_outside :
    sampleRelinker.base.isAbsolute = true ∧
      sampleRelinker.base.normalize.same sampleRelinker.base = true ∧
      sampleRelinker.outcome "\\evil.com".toList =
        .moved "//evil.com" ⟨"/site/src/\\evil.com"⟩ ∧
      isExternalLink "//evil.com".toList = true ∧
      sampleRelinker.outcome "..\\..\\x".toList = .moved "/../../x" ⟨"/site/src/..\\..\\x"⟩ ∧
      HasDotPiece "/../../x".toList ∧
      sampleRelinker.outcome "%2e%2e/secret.html".toList =
        .moved "/%2e%2e/secret.html" ⟨"/site/secret.html"⟩ ∧
      startsWith ⟨"/site/secret.html"⟩ sampleRelinker.base = false := by
  decide +kernel

end Relinker

end StaticSite

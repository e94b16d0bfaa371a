import StaticSite.Link
import StaticSite.Proofs.Layout
import StaticSite.Proofs.Path.Normal

/-!
# The place that a link leads to

The part of a link before its query and fragment leads to a place below the base folder
(`Relinker.place?`), or out of it. A link that is moved gets the address of that place
(`Relinker.outcome_eq_moved_iff`). The place is spelled by names of the link
(`Relinker.exists_place`).
-/

namespace StaticSite

open StaticSite.Text StaticSite.Path

/-- The part of a link before its query and fragment. -/
def linkPath (href : List Char) : List Char := (trim href).takeWhile (!startsSuffix ·)

/-- The query and the fragment of a link. -/
def linkSuffix (href : List Char) : List Char := (trim href).dropWhile (!startsSuffix ·)

/-- The text with its backslashes turned into `/`. -/
def slashed (s : List Char) : List Char := s.map fun c => if c = '\\' then '/' else c

theorem slashed_append_slash (s t : List Char) :
    slashed (s ++ '/' :: t) = slashed s ++ '/' :: slashed t := List.map_append

theorem slashed_of_not_mem {s : List Char} (h : '\\' ∉ s) : slashed s = s := by
  refine (List.map_congr_left fun c hc => ?_).trans (List.map_id s)
  exact if_neg fun heq : c = '\\' => h (heq ▸ hc)

/-- Names of a text without backslashes have none, put one behind the other. -/
theorem backslash_not_mem_joinPieces {s : List Char} {ns : List (List Char)} (h : '\\' ∉ s)
    (hns : ∀ n ∈ ns, .name n ∈ stepsOf s) : '\\' ∉ joinPieces ns := by
  intro hc
  rcases mem_joinPieces hc with hc | ⟨n, hn, hc⟩
  · exact absurd hc (by decide)
  · exact h (mem_of_name_mem_stepsOf (hns n hn) hc)

namespace Relinker

/-- The place that a link leads to, as it is seen from the folder of the pages if it lies there. -/
def place? (r : Relinker) (href : List Char) : Option Path :=
  ((r.base.join (ofChars (linkPath href))).normalize.stripPrefix? r.base).map (·.behind r.pages)

/-- The source that a link leads to once it is decoded. -/
def decodedTarget (r : Relinker) (href : List Char) : Path :=
  (r.base.join ⟨(percentDecode? (linkPath href)).getD (String.ofList (linkPath href))⟩).normalize

variable {r : Relinker} {href : List Char}

theorem relativeText_ofPieces (ns : List (List Char)) :
    relativeText (ofPieces false ns) = slashed (joinPieces ns) := by
  rw [relativeText, chars_ofPieces]
  rfl

theorem outcome_eq_moved_iff {url : String} {target : Path} :
    r.outcome href = .moved url target ↔ isFixedLink (trim href) = false ∧
      ∃ place, r.place? href = some place ∧
        url.toList = '/' :: relativeText place ++ linkSuffix href ∧
        target = r.decodedTarget href := by
  rw [outcome]
  dsimp only
  by_cases hf : isFixedLink (trim href) = true
  · rw [if_pos hf, hf]
    simp
  · rw [if_neg hf, Bool.eq_false_iff.2 hf, place?, linkPath, linkSuffix, decodedTarget, linkPath]
    rcases (r.base.join (ofChars ((trim href).takeWhile (!startsSuffix ·)))).normalize.stripPrefix?
      r.base with _ | rest
    · simp
    · rw [LinkOutcome.moved.injEq, Option.map_some]
      constructor
      · rintro ⟨rfl, rfl⟩
        exact ⟨rfl, _, rfl, String.toList_ofList, rfl⟩
      · rintro ⟨-, place, hplace, hurl, rfl⟩
        obtain rfl := Option.some.inj hplace
        refine ⟨?_, rfl⟩
        rw [← String.toList_inj, String.toList_ofList, hurl]
        rfl

/-- A link that is not kept is no absolute path. -/
theorem head?_linkPath (h : isFixedLink (trim href) = false) :
    (linkPath href).head? ≠ some '/' := by
  rw [linkPath]
  rcases hl : trim href with _ | ⟨c, s⟩
  · simp
  · have hc : c ≠ '/' := by
      rintro rfl
      rw [hl, isFixedLink] at h
      simp at h
    rw [List.takeWhile_cons]
    split
    · simpa using hc
    · simp

/-- What is left of a path of names behind a folder of names. -/
theorem stripPrefix?_names {p q rest : Path} {ns ms : List (List Char)}
    (hns : ∀ n ∈ ns ++ ms, IsName n) (hp : p = ofPieces true (ns ++ ms))
    (hq : q.components = .root :: ns.map .name) (h : p.stripPrefix? q = some rest) :
    rest = ofPieces false ms := by
  have hms : ∀ m ∈ ms, IsName m := fun m hm => hns m (List.mem_append_right _ hm)
  have hc : rest.components = ms.map .name := by
    have hc := components_of_stripPrefix? h
    rw [hp, components_ofPieces_names hns, hq, List.map_append, if_pos rfl, List.singleton_append,
      List.cons_append, List.cons.injEq, List.append_cancel_left_eq] at hc
    exact hc.2.symm
  rw [← filterMap_ofPiece? hms] at hc
  by_cases hne : ms = []
  · subst hne
    exact stripPrefix?_eq_ofPieces (Tight.of_isName hms) (List.append_nil _).symm h hc
  · have hpieces : p.pieces = ns ++ ms := by
      rw [hp, pieces_ofPieces (.inl rfl) (List.append_ne_nil_of_right_ne_nil _ hne)
        fun n hn => (hns n hn).2.1]
    exact stripPrefix?_eq_ofPieces (Tight.of_isName hms) hpieces h hc

/-- The place that a link leads to below a normal folder is spelled by names of the link. -/
theorem exists_place {ns : List (List Char)} (hns : ∀ n ∈ ns, IsName n)
    (hb : r.base.components = .root :: ns.map .name) (hl : (linkPath href).head? ≠ some '/')
    {place : Path} (h : r.place? href = some place) :
    ∃ ms names : List (List Char),
      (r.base.join (ofChars (linkPath href))).normalize = ofPieces true (ns ++ ms) ∧
      (∀ m ∈ ms, IsName m) ∧ (∀ m ∈ names, .name m ∈ stepsOf (linkPath href)) ∧
      (∀ m ∈ names, IsName m) ∧ place = ofPieces false names ∧
      names.map .name = stepsBehind r.pages.components (ms.map .name) := by
  obtain ⟨rest, hrest, rfl⟩ := Option.map_eq_some_iff.1 h
  have hq : (ofChars (linkPath href)).isAbsolute = false := by
    rwa [Bool.eq_false_iff, ne_eq, isAbsolute_ofChars_iff]
  have hin := startsWith_of_stripPrefix? hrest
  obtain ⟨ms, hsteps, hms, heq⟩ := exists_below_of_startsWith hns hb hq hin
  rw [chars_ofChars] at hsteps
  obtain rfl := stripPrefix?_names (List.forall_mem_append.2 ⟨hns, hms⟩) heq hb hrest
  obtain ⟨xs, names, rfl, -, hbehind⟩ :=
    exists_suffix_behind (Tight.of_isName hms) (fun m hm => (hms m hm).2.1) r.pages
  have hnames : ∀ m ∈ names, IsName m := fun m hm => hms m (List.mem_append_right _ hm)
  refine ⟨xs ++ names, names, heq, hms, fun m hm => hsteps m (List.mem_append_right _ hm), hnames,
    hbehind, ?_⟩
  have hc := components_behind (ofPieces false (xs ++ names)) r.pages
  rw [hbehind, components_ofPieces_names hnames, components_ofPieces_names hms] at hc
  exact hc

end Relinker

end StaticSite

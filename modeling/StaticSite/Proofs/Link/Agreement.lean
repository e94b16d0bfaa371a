import StaticSite.Proofs.Link.Place

/-!
# Links and pages agree

A link that leads to a source, or to the HTML that the source becomes, gets the address of the file
that the page of the source is written to (`Relinker.outcome_eq_outputPath`). The exception is
a source whose name is two dots and an extension: its page is written to a path that ends in `..`.
-/

namespace StaticSite

open StaticSite.Text StaticSite.Path

namespace Path

/-- A relative path of names is spelled by them once it is normal. -/
theorem normalize_of_components {p : Path} {ns : List (List Char)}
    (h : p.components = ns.map .name) : p.normalize = ofPieces false ns := by
  rw [normalize, normalSteps, h, foldl_push_map_name, List.append_nil, ← List.map_reverse,
    List.reverse_reverse, ofComponents_map_name]

theorem stepsOf_joinPieces_names {ns : List (List Char)} (h : ∀ n ∈ ns, IsName n) :
    stepsOf (joinPieces ns) = ns.map .name := by
  rw [stepsOf_joinPieces fun n hn => (h n hn).2.1, filterMap_ofPiece? h]

/-- Names and a step `..` do not lead to a place with one more name. -/
theorem normalize_chars_ne {p : Path} {ns : List (List Char)} (hns : ∀ n ∈ ns, IsName n)
    (h : p.components = ns.map .name ++ [.parent]) {n : List Char} (hn : IsName n) :
    p.normalize.chars ≠ joinPieces (ns ++ [n]) := by
  rw [normalize, normalSteps, h, List.foldl_append, foldl_push_map_name, List.append_nil]
  rcases List.eq_nil_or_concat' ns with rfl | ⟨ns, m, rfl⟩
  · exact hn.2.2.2.symm
  · have hstep : ([Component.parent].foldl Component.push
        ((ns ++ [m]).reverse.map .name)).reverse = ns.map .name := by
      rw [List.reverse_concat, List.map_cons]
      show (ns.reverse.map Component.name).reverse = _
      rw [← List.map_reverse, List.reverse_reverse]
    rw [hstep, ofComponents_map_name, chars_ofPieces]
    intro heq
    have hsteps := congrArg stepsOf heq
    rw [if_neg Bool.false_ne_true, List.nil_append, stepsOf_joinPieces_names,
      stepsOf_joinPieces_names] at hsteps
    · simpa using congrArg List.length hsteps
    · exact List.forall_mem_append.2 ⟨hns, List.forall_mem_singleton.2 hn⟩
    · exact fun k hk => hns k (List.mem_append_left _ hk)

/-- A path of names and another extension is spelled by the names, unless the new extension left
a step `..`. -/
theorem normalize_concat_nameWith {ws es : List (List Char)} {stem extension : List Char}
    (hz : Tight (ws ++ [nameWith stem extension]))
    (hs : ∀ x ∈ ws ++ [nameWith stem extension], '/' ∉ x)
    (hws : ws.filterMap Component.ofPiece? = es.map .name) (hes : ∀ n ∈ es, IsName n)
    (hn : IsName (stem ++ '.' :: extension)) (he : extension ≠ []) (hstem : stem ≠ []) :
    ((ofPieces false (ws ++ [nameWith stem extension])).normalize.chars =
        joinPieces (es ++ [stem ++ '.' :: extension]) ↔ stem ≠ ['.']) ∧
      (stem ≠ ['.'] → (∀ w ∈ ws, IsName w) →
        (ofPieces false (ws ++ [nameWith stem extension])).normalize =
          ofPieces false (ws ++ [nameWith stem extension])) := by
  have hc : (ofPieces false (ws ++ [nameWith stem extension])).components =
      es.map .name ++ ([nameWith stem extension].filterMap Component.ofPiece?) := by
    rw [(ofPieces_tight hz (by simp) hs).2.2.1, List.filterMap_append, hws]
  by_cases hdots : stem = ['.']
  · subst hdots
    exact ⟨iff_of_false (normalize_chars_ne hes hc hn) (fun h => h rfl), fun h => absurd rfl h⟩
  · rw [(nameWith_eq_iff he).2 hdots] at hc ⊢
    rw [List.filterMap_cons_some hn.ofPiece?, List.filterMap_nil] at hc
    rw [← List.map_singleton (f := Component.name), ← List.map_append] at hc
    rw [normalize_of_components hc, chars_ofPieces]
    refine ⟨iff_of_true rfl hdots, fun _ hnames => ?_⟩
    rw [filterMap_ofPiece? hnames] at hws
    rw [map_name_injective hws]

end Path

namespace Relinker

variable {l : Layout} {s : Path}

/-- A link that leads to the page of a source gets the address of the file that the page is written
to, unless the name of the source is two dots and an extension. -/
theorem outcome_eq_outputPath (ha : l.base.isAbsolute = true)
    (hb : l.base.normalize.same l.base = true) (hs : s.startsWith l.base = true)
    (hne : s.same l.base = false) {stem ext : List Char}
    (hname : s.fileName? = some (stem ++ '.' :: ext)) (hstem : stem ≠ [])
    (hext : ext = ['h', 't', 'm', 'l'] ∨ ext = ['m', 'd']) (hpage : s.same l.pagesDir = false)
    {href : List Char} {url : String} {target : Path}
    (h : (⟨l.base, l.pages⟩ : Relinker).outcome href = .moved url target)
    (hback : '\\' ∉ linkPath href)
    (hto : (l.base.join (ofChars (linkPath href))).normalize.components =
      s.components.dropLast ++ [.name (stem ++ '.' :: "html".toList)])
    (htoPage : (l.base.join (ofChars (linkPath href))).normalize.same l.pagesDir = false) :
    ∃ place, (l.outputPath s).stripPrefix? l.output = some place ∧
      (url.toList = '/' :: place.normalize.chars ++ linkSuffix href ↔ stem ≠ ['.']) ∧
      (stem ≠ ['.'] → s.normalize = s → place.normalize = place) := by
  obtain ⟨hfixed, linked, hplace, hurl, -⟩ := outcome_eq_moved_iff.1 h
  obtain ⟨ns, hns, hbase⟩ := exists_names_of_normal ha hb
  obtain ⟨ms, names, heq, hms, hsteps, hnames, rfl, hlink⟩ :=
    exists_place hns hbase (head?_linkPath hfixed) hplace
  have hb0 : l.base.chars ≠ [] := chars_ne_nil ha
  have hdot : '.' ∉ ext := by rcases hext with rfl | rfl <;> decide
  -- the steps of the source, and of the link, behind the base folder
  obtain ⟨ds, hds⟩ : ∃ ds,
      s.components = l.base.components ++ (ds ++ [.name (stem ++ '.' :: ext)]) := by
    obtain ⟨cs, hcs⟩ := startsWith_iff.1 hs
    have hcs0 : cs ≠ [] := by
      rintro rfl
      rw [List.append_nil] at hcs
      rw [same_iff.2 hcs.symm] at hne
      cases hne
    have hlast := fileName?_eq_some_iff.1 hname
    rw [← hcs, List.getLast?_append_of_ne_nil _ hcs0, List.getLast?_eq_some_iff] at hlast
    obtain ⟨ds, rfl⟩ := hlast
    exact ⟨ds, hcs.symm⟩
  rw [hds, ← List.append_assoc, List.dropLast_concat, List.append_assoc] at hto
  have hms' : ms.map Component.name = ds ++ [.name (stem ++ '.' :: "html".toList)] := by
    rw [heq, components_ofPieces_names (List.forall_mem_append.2 ⟨hns, hms⟩), hbase, if_pos rfl,
      List.map_append, List.singleton_append, List.cons_append, List.cons.injEq,
      List.append_cancel_left_eq] at hto
    exact hto.2
  obtain ⟨folders, ns', rfl, rfl, hns'⟩ := List.map_eq_append_iff.1 hms'
  obtain rfl : ns' = [stem ++ '.' :: "html".toList] := map_name_injective hns'
  -- both are seen from the folder of the pages alike
  obtain ⟨es, hes, hfolders⟩ := exists_stepsBehind_map_name l.pages.components folders
  obtain rfl : names = es ++ [stem ++ '.' :: "html".toList] := by
    refine map_name_injective (hlink.trans ?_)
    rw [List.map_append, List.map_append, ← hfolders]
    exact stepsBehind_concat (Layout.pages_ne hb0 hto htoPage)
  obtain ⟨ws, hz, hws0, hws, hout, hwsn⟩ := Layout.exists_outputPath ha hds hstem hdot hpage
  obtain ⟨hiff, hself⟩ := normalize_concat_nameWith hz hws0 (hws.trans hfolders)
    (fun n hn => hnames n (List.mem_append_left _ hn)) (hnames _ (by simp)) (by decide) hstem
  refine ⟨ofPieces false (ws ++ [nameWith stem "html".toList]), ?_, ?_,
    fun h hnormal => hself h (hwsn hnormal)⟩
  · rw [hout, stripPrefix?_join l.output hws0 hz (by simp)]
  · rw [hurl, relativeText_ofPieces, slashed_of_not_mem (backslash_not_mem_joinPieces hback hsteps),
      List.append_cancel_right_eq, List.cons_inj_right, eq_comm]
    exact hiff

/-- The folders of a site below `/site`. -/
def sampleLayout : Layout where
  input := ⟨"/site/src/index.html"⟩
  base := ⟨"/site/src"⟩
  pages := ⟨"pages"⟩
  output := ⟨"/site/dist"⟩
  static := ⟨"static"⟩
  components := ⟨"components"⟩

/-- A link with detours to a page in a folder with the name of the folder of the pages. -/
theorem outcome_eq_outputPath_sample :
    ∃ place, (sampleLayout.outputPath ⟨"/site/src/pages/pages/a.md"⟩).stripPrefix?
        sampleLayout.output = some place ∧
      "/pages/a.html?b#c".toList =
        '/' :: place.normalize.chars ++ linkSuffix "x//.././pages/pages/a.html?b#c".toList := by
  have hname : (⟨"/site/src/pages/pages/a.md"⟩ : Path).fileName? =
      some (['a'] ++ '.' :: ['m', 'd']) := by decide +kernel
  have hmoved : (⟨sampleLayout.base, sampleLayout.pages⟩ : Relinker).outcome
      "x//.././pages/pages/a.html?b#c".toList =
        .moved "/pages/a.html?b#c" ⟨"/site/src/pages/pages/a.html"⟩ := by decide +kernel
  obtain ⟨place, hplace, hurl, -⟩ := outcome_eq_outputPath (l := sampleLayout)
    (by decide +kernel) (by decide +kernel) (by decide +kernel) (by decide +kernel) hname
    (by decide) (.inr rfl) (by decide +kernel) hmoved (by decide +kernel) (by decide +kernel)
    (by decide +kernel)
  exact ⟨place, hplace, hurl.2 (by decide)⟩

/-- The page of a source whose name is two dots and the extension has a path that ends in `..`. -/
theorem outcome_ne_outputPath :
    isPageSource ⟨"/site/src/..html"⟩ = true ∧
      (⟨sampleLayout.base, sampleLayout.pages⟩ : Relinker).outcome "..html".toList =
        .moved "/..html" ⟨"/site/src/..html"⟩ ∧
      (sampleLayout.base.join (ofChars (linkPath "..html".toList))).normalize =
        ⟨"/site/src/..html"⟩ ∧
      sampleLayout.outputPath ⟨"/site/src/..html"⟩ = ⟨"/site/dist/.."⟩ ∧
      stripPrefix? ⟨"/site/dist/.."⟩ sampleLayout.output = some ⟨".."⟩ := by
  decide +kernel

end Relinker

end StaticSite

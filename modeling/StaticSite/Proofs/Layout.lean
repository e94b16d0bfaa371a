import StaticSite.Proofs.Config
import StaticSite.Proofs.Path.Extension
import StaticSite.Proofs.Path.Normal

/-!
# Where pages are written

A source that lies in the base folder is seen from there, and from the folder of the pages if it
lies in that one (`Layout.exists_pageRelative`). Its page has the same place below the output
folder, but for the extension (`Layout.outputPath_eq`). So a source that is found below the folder
of the pages is written at its place below that folder (`Layout.outputPath_of_mem_files`), unless
the folder is spelled with a step `.` in front of its names: a path that is seen from the base
folder does not start with that step (`Layout.outputPath_keeps_pages`).
-/

namespace StaticSite

/-- The steps behind the steps of a folder, or all of them if they do not start there. -/
def stepsBehind (folder cs : List Component) : List Component :=
  if folder.isPrefixOf cs then cs.drop folder.length else cs

/-- The last of the steps stays, unless they are those of the folder. -/
theorem stepsBehind_concat {folder cs : List Component} {c : Component} (h : folder ≠ cs ++ [c]) :
    stepsBehind folder (cs ++ [c]) = stepsBehind folder cs ++ [c] := by
  rw [stepsBehind, stepsBehind]
  by_cases hp : folder <+: cs
  · rw [if_pos (List.isPrefixOf_iff_prefix.2 hp),
      if_pos (List.isPrefixOf_iff_prefix.2 (hp.trans (List.prefix_append cs [c]))),
      List.drop_append_of_le_length hp.length_le]
  · rw [if_neg (mt List.isPrefixOf_iff_prefix.1 hp), if_neg]
    rw [List.isPrefixOf_iff_prefix, List.prefix_concat_iff]
    exact not_or.2 ⟨h, hp⟩

theorem exists_stepsBehind_map_name (folder : List Component) (ns : List (List Char)) :
    ∃ ms, ms <:+ ns ∧ stepsBehind folder (ns.map .name) = ms.map .name := by
  rw [stepsBehind]
  split
  · exact ⟨ns.drop folder.length, List.drop_suffix _ _, (List.map_drop ..).symm⟩
  · exact ⟨ns, List.suffix_rfl, rfl⟩

theorem stepsBehind_suffix (folder cs : List Component) : stepsBehind folder cs <:+ cs := by
  rw [stepsBehind]
  split
  · exact List.drop_suffix _ _
  · exact List.suffix_rfl

namespace Path

/-- The path as it is seen from a folder, if it starts there. -/
def behind (p q : Path) : Path := (p.stripPrefix? q).getD p

theorem components_behind (p q : Path) :
    (p.behind q).components = stepsBehind q.components p.components := by
  rw [behind, stepsBehind]
  by_cases h : p.startsWith q = true
  · obtain ⟨r, hr⟩ := stripPrefix?_eq_some_of_prefix (startsWith_iff.1 h)
    rw [startsWith] at h
    rw [if_pos h, hr, components_of_stripPrefix? hr, List.drop_left]
    rfl
  · rw [stripPrefix?_eq_none_iff.2 (Bool.eq_false_iff.2 h)]
    rw [startsWith] at h
    rw [if_neg h]
    rfl

/-- The pieces of a path that is seen from a folder are its last ones. -/
theorem exists_suffix_behind {zs : List (List Char)} (hz : Tight zs) (hs : ∀ x ∈ zs, '/' ∉ x)
    (q : Path) :
    ∃ xs ys, zs = xs ++ ys ∧ Tight ys ∧ (ofPieces false zs).behind q = ofPieces false ys := by
  by_cases hne : zs = []
  · subst hne
    refine ⟨[], [], rfl, hz, ?_⟩
    rw [← ofChars_chars ((ofPieces false []).behind q), components_eq_nil_iff.1]
    · rfl
    · exact List.suffix_nil.1 (components_behind _ q ▸ stepsBehind_suffix _ _)
  · obtain ⟨-, hp, -, -⟩ := ofPieces_tight hz hne hs
    rw [behind]
    rcases h : (ofPieces false zs).stripPrefix? q with _ | r
    · exact ⟨[], zs, rfl, hz, rfl⟩
    · by_cases hq : q.components = []
      · refine ⟨[], zs, rfl, hz, ?_⟩
        have hlast : ∀ y ∈ (ofPieces false zs).pieces.getLast?, Component.ofPiece? y ≠ none := by
          rw [hp]
          exact hz.last
        rw [stripPrefix?_of_components_eq_nil hq, dropVoid_of_last hlast,
          ofPiecesFromEnd_piecesFromEnd] at h
        rw [Option.getD_some, ← Option.some.inj h]
      · obtain ⟨xs, ys, hxy, hy, -, rfl⟩ :=
          exists_suffix_of_stripPrefix? hq (by rw [hp]; exact hz.last) h
        exact ⟨xs, ys, hp.symm.trans hxy, hy, rfl⟩

/-- Another extension does not touch the folder. -/
theorem withExtension_join (p : Path) {ws : List (List Char)} {stem ext : List Char}
    (hz : Tight (ws ++ [stem ++ '.' :: ext])) (hs : ∀ x ∈ ws, '/' ∉ x)
    (hn : IsName (stem ++ '.' :: ext)) (hstem : stem ≠ []) (hext : '.' ∉ ext) {e : String}
    (he : '/' ∉ e.toList) :
    (p.join (ofPieces false (ws ++ [stem ++ '.' :: ext]))).withExtension e =
      p.join (ofPieces false (ws ++ [nameWith stem e.toList])) := by
  have hm : nameWith stem e.toList ≠ [] := by
    rw [nameWith]
    split <;> simp
  have hms : '/' ∉ nameWith stem e.toList :=
    slash_not_mem_nameWith (fun h => hn.2.1 (List.mem_append_left _ h)) he
  have hs' : ∀ x ∈ ws ++ [stem ++ '.' :: ext], '/' ∉ x :=
    List.forall_mem_append.2 ⟨hs, List.forall_mem_singleton.2 hn.2.1⟩
  obtain ⟨ha, hp, -, h0⟩ := ofPieces_tight hz (by simp) hs'
  obtain ⟨ha', hp'⟩ := pieces_ofPieces_concat hp hn.1 hm hms
  rw [ha] at ha' hp'
  have hj := pieces_join (p := p) ha (.inr h0)
  rw [hp, ← List.append_assoc] at hj
  rw [withExtension_eq hj hn hstem hext, isAbsolute_join p ha, join_eq_ofPieces p ha', hp',
    List.append_assoc]

/-- Whether the path starts with a step `.` and goes on with a name. -/
def isDotted (p : Path) : Bool :=
  match p.components with
  | .current :: .name _ :: _ => true
  | _ => false

/-- Behind a folder that is spelled as it should be its names are gone. If a step `.` stands in
front of them, they are left. -/
theorem exists_stepsBehind {p : Path} (h : Config.staysInside p = true) :
    ∃ vs : List (List Char), (vs = [] ↔ p.isDotted = false) ∧
      ∀ ns : List (List Char), stepsBehind p.components (stepsOf p.chars ++ ns.map .name) =
        (vs ++ ns).map .name := by
  obtain ⟨-, ps, hps, hpc | hpc⟩ := Config.exists_of_staysInside h
  · refine ⟨[], iff_of_true rfl ?_, fun ns => ?_⟩
    · rw [isDotted, hpc]
      rcases ps with _ | ⟨q, ps⟩ <;> rfl
    · rw [hps, hpc, stepsBehind, if_pos (by simp), List.drop_left, List.nil_append]
  · refine ⟨ps, ?_, fun ns => ?_⟩
    · rw [isDotted, hpc]
      rcases ps with _ | ⟨q, ps⟩ <;> simp
    · rw [hps, hpc, stepsBehind, if_neg, List.map_append]
      rw [List.isPrefixOf_iff_prefix, ← List.map_append]
      intro hpre
      obtain ⟨m, -, hm⟩ := List.mem_map.1 (hpre.subset (List.mem_cons_self ..))
      cases hm

end Path

namespace Layout

open StaticSite.Path

variable {l : Layout} {s : Path}

theorem pageRelative_eq (l : Layout) (s : Path) :
    l.pageRelative s = (s.behind l.base).behind l.pages := rfl

/-- A source in the base folder is seen from there, and from the folder of the pages, by a stretch
of its pieces. -/
theorem exists_pageRelative (hb : l.base.components ≠ []) (hs : s.startsWith l.base = true) :
    ∃ xs zs ys, s.pieces = xs ++ (zs ++ ys) ∧ (∀ y ∈ ys, Component.ofPiece? y = none) ∧ Tight zs ∧
      l.pageRelative s = ofPieces false zs ∧
      ∃ cs, s.components = l.base.components ++ cs ∧
        zs.filterMap Component.ofPiece? = stepsBehind l.pages.components cs := by
  obtain ⟨r, hr⟩ := stripPrefix?_eq_some_of_prefix (startsWith_iff.1 hs)
  obtain ⟨xs, zs, ys, hp, hvoid, hz, hc, rfl⟩ := exists_of_stripPrefix? hb hr
  have hslash : ∀ x ∈ zs, '/' ∉ x := fun x hx => slash_not_mem_pieces (p := s) (by
    rw [hp]
    exact List.mem_append_right xs (List.mem_append_left ys hx))
  obtain ⟨xs', zs', rfl, hz', hbehind⟩ := exists_suffix_behind hz hslash l.pages
  refine ⟨xs ++ xs', zs', ys, ?_, hvoid, hz', ?_, _, hc, ?_⟩
  · rw [hp, List.append_assoc, List.append_assoc]
  · have hbase : s.behind l.base = ofPieces false (xs' ++ zs') := by
      rw [behind, hr]
      rfl
    rw [pageRelative_eq, hbase, hbehind]
  · have h := components_behind (ofPieces false (xs' ++ zs')) l.pages
    rw [hbehind, components_ofPieces (fun x hx => hslash x (List.mem_append_right xs' hx))
      (.inr hz'.head), components_ofPieces hslash (.inr hz.head)] at h
    exact h

/-- The page of a source has the place of the source below the output folder, but for the extension
of its name. -/
theorem outputPath_eq {ws : List (List Char)} {stem ext : List Char}
    (h : l.pageRelative s = ofPieces false (ws ++ [stem ++ '.' :: ext]))
    (hz : Tight (ws ++ [stem ++ '.' :: ext])) (hs : ∀ x ∈ ws, '/' ∉ x)
    (hn : IsName (stem ++ '.' :: ext)) (hstem : stem ≠ []) (hext : '.' ∉ ext) :
    l.outputPath s = l.output.join (ofPieces false (ws ++ [nameWith stem "html".toList])) := by
  have hs' : ∀ x ∈ ws ++ [stem ++ '.' :: ext], '/' ∉ x :=
    List.forall_mem_append.2 ⟨hs, List.forall_mem_singleton.2 hn.2.1⟩
  rw [outputPath, h, (ofPieces_tight hz (by simp) hs').1, if_neg Bool.false_ne_true,
    withExtension_join l.output hz hs hn hstem hext (by decide)]

/-- A path in the base folder that is not the folder of the pages does not have its steps. -/
theorem pages_ne (hb : l.base.chars ≠ []) {folders : List (List Char)} {n : List Char}
    (hp : s.components = l.base.components ++ (folders.map .name ++ [.name n]))
    (hpage : s.same l.pagesDir = false) : l.pages.components ≠ folders.map .name ++ [.name n] := by
  intro heq
  have heq' : l.pages.components = (folders ++ [n]).map .name := by
    rw [heq, List.map_append]
    rfl
  have hdir : l.pagesDir.components = s.components := by
    rw [pagesDir, components_join_of_names heq' hb, ← heq', heq, hp]
  rw [same_iff.2 hdir.symm] at hpage
  cases hpage

/-- The page of a source in the base folder is written at the place of the source, as it is seen
from the folder of the pages. -/
theorem exists_outputPath (hb : l.base.isAbsolute = true) {folders : List (List Char)}
    {stem ext : List Char}
    (hs : s.components = l.base.components ++ (folders.map .name ++ [.name (stem ++ '.' :: ext)]))
    (hstem : stem ≠ []) (hext : '.' ∉ ext) (hpage : s.same l.pagesDir = false) :
    ∃ ws, Tight (ws ++ [nameWith stem "html".toList]) ∧
      (∀ x ∈ ws ++ [nameWith stem "html".toList], '/' ∉ x) ∧
      ws.filterMap Component.ofPiece? = stepsBehind l.pages.components (folders.map .name) ∧
      l.outputPath s = l.output.join (ofPieces false (ws ++ [nameWith stem "html".toList])) ∧
      (s.normalize = s → ∀ w ∈ ws, IsName w) := by
  have hb0 : l.base.chars ≠ [] := chars_ne_nil hb
  have hn : IsName (stem ++ '.' :: ext) := isName_of_mem_components (p := s) (by rw [hs]; simp)
  have hss : '/' ∉ stem := fun h => hn.2.1 (List.mem_append_left _ h)
  obtain ⟨xs, zs, ys, hpieces, hvoid, hz, hrel, cs, hcs, hbehind⟩ := exists_pageRelative
    (mt components_eq_nil_iff.1 hb0) (startsWith_iff.2 (hs ▸ List.prefix_append _ _))
  obtain rfl := List.append_cancel_left (hs.symm.trans hcs)
  have hmem : ∀ x ∈ zs, x ∈ s.pieces := fun x hx => by
    rw [hpieces]
    exact List.mem_append_right xs (List.mem_append_left ys hx)
  have hzs : ∀ x ∈ zs, '/' ∉ x := fun x hx => slash_not_mem_pieces (hmem x hx)
  rw [stepsBehind_concat (pages_ne hb0 hs hpage)] at hbehind
  obtain ⟨ws, rfl, hws⟩ := hz.exists_concat hzs hbehind
  have hslash : ∀ x ∈ ws, '/' ∉ x := fun x hx => hzs x (List.mem_append_left _ hx)
  refine ⟨ws, hz.concat (ofPiece?_nameWith hstem _), List.forall_mem_append.2
    ⟨hslash, List.forall_mem_singleton.2 (slash_not_mem_nameWith hss (by decide))⟩, hws,
    outputPath_eq hrel hz hslash hn hstem hext, fun hnormal w hw => ?_⟩
  have hsa : s.isAbsolute = true := by
    rw [components_of_isAbsolute hb] at hs
    exact isAbsolute_of_components hs
  refine isName_of_mem_pieces hsa hnormal (hmem w (List.mem_append_left _ hw)) fun h0 => ?_
  have hlast := hmem _ (List.mem_append_right ws (List.mem_singleton_self _))
  rw [h0, List.mem_singleton] at hlast
  exact hn.1 hlast

/-- A file below the folder of the pages is seen by its names from there, but for the names of that
folder if a step `.` stands in front of them. -/
theorem exists_pageRelative_join (hb : l.base.isAbsolute = true)
    (hp : Config.staysInside l.pages = true) {folders : List (List Char)} {n : List Char}
    (hns : ∀ m ∈ folders ++ [n], IsName m) :
    ∃ ws, l.pageRelative (l.pagesDir.join (ofPieces false (folders ++ [n]))) =
        ofPieces false (ws ++ [n]) ∧
      Tight (ws ++ [n]) ∧ (∀ x ∈ ws, '/' ∉ x) ∧ (ws = folders ↔ l.pages.isDotted = false) := by
  obtain ⟨hpa, -⟩ := Config.exists_of_staysInside hp
  have hb0 : l.base.chars ≠ [] := chars_ne_nil hb
  have hbc : l.base.components ≠ [] := mt components_eq_nil_iff.1 hb0
  have hdir : l.pagesDir.components = l.base.components ++ stepsOf l.pages.chars :=
    components_join hpa hb0
  have hd0 : l.pagesDir.chars ≠ [] := by
    rw [ne_eq, ← components_eq_nil_iff, hdir]
    exact List.append_ne_nil_of_left_ne_nil hbc _
  have ht : Tight (folders ++ [n]) := Tight.of_isName hns
  obtain ⟨hna, hnp, -, hn0⟩ := ofPieces_tight ht (by simp) fun m hm => (hns m hm).2.1
  set s := l.pagesDir.join (ofPieces false (folders ++ [n])) with hs
  have hsp : s.pieces = l.pagesDir.folderPieces ++ (folders ++ [n]) := by
    rw [hs, pieces_join hna (.inr hn0), hnp]
  have hsc : s.components =
      l.base.components ++ (stepsOf l.pages.chars ++ (folders ++ [n]).map .name) := by
    rw [hs, components_join hna hd0, hdir, stepsOf_chars (ofPieces _ _), hnp,
      filterMap_ofPiece? hns, List.append_assoc]
  obtain ⟨xs, zs, ys, hxzy, hvoid, hz, hrel, cs, hcs, hbehind⟩ := exists_pageRelative hbc
    (startsWith_iff.2 (hsc ▸ List.prefix_append _ _))
  rw [hsc, List.append_cancel_left_eq] at hcs
  obtain ⟨vs, hvs, hsteps⟩ := exists_stepsBehind hp
  rw [← hcs, hsteps] at hbehind
  have hlast : ∀ y ∈ s.pieces.getLast?, Component.ofPiece? y ≠ none := by
    rw [hsp, List.getLast?_append_of_ne_nil _ (by simp)]
    exact ht.last
  rw [← List.append_assoc] at hxzy
  obtain rfl := eq_nil_of_void hlast hxzy hvoid
  rw [List.append_nil] at hxzy
  have hzs : ∀ x ∈ zs, '/' ∉ x := fun x hx =>
    slash_not_mem_pieces (hxzy ▸ List.mem_append_right xs hx)
  have hconcat : zs.filterMap Component.ofPiece? = (vs ++ folders).map .name ++ [.name n] := by
    rw [hbehind, List.map_append, List.map_append, List.map_append, List.append_assoc,
      List.map_singleton]
  obtain ⟨ws, rfl, hws⟩ := hz.exists_concat hzs hconcat
  refine ⟨ws, hrel, hz, fun x hx => hzs x (List.mem_append_left _ hx), ?_⟩
  rw [← hvs]
  constructor
  · rintro rfl
    rw [filterMap_ofPiece? fun m hm => hns m (List.mem_append_left _ hm), List.map_append,
      List.self_eq_append_left, List.map_eq_nil_iff] at hws
    exact hws
  · rintro rfl
    refine List.append_cancel_right (eq_of_append_eq_append hz ht ?_ (hxzy.symm.trans hsp))
    rw [hbehind, filterMap_ofPiece? hns, List.nil_append]

/-- A page is written at the place of its source below the folder of the pages, with the extension
`html`. The exceptions are a folder of the pages that is spelled with a step `.` in front of its
names, which are not taken off, and a source whose name is two dots and the extension. -/
theorem outputPath_of_mem_files {c : Config} {t : FileTree} {s : Path} (ht : t.Named)
    (hv : c.validate t = .ok ()) (hb : c.base.isAbsolute = true)
    (hs : s ∈ t.files c.layout.pagesDir) (hne : s ≠ c.layout.pagesDir)
    (hsource : isPageSource s = true) :
    ∃ folders stem ext, (∀ n ∈ folders ++ [stem ++ '.' :: ext], IsName n) ∧ stem ≠ [] ∧
      (ext = ['h', 't', 'm', 'l'] ∨ ext = ['m', 'd']) ∧
      s = c.layout.pagesDir.join (ofPieces false (folders ++ [stem ++ '.' :: ext])) ∧
      (c.layout.outputPath s =
          c.output.join (ofPieces false (folders ++ [stem ++ '.' :: "html".toList])) ↔
        c.pages.isDotted = false ∧ stem ≠ ['.']) := by
  -- the names on the way from the folder of the pages
  obtain ⟨ns, hns, hfound⟩ := FileTree.exists_of_mem_files ht hs
  have hns0 : ns ≠ [] := by
    rintro rfl
    exact hne hfound
  rw [foldl_join hns hns0] at hfound
  obtain ⟨stem, ext, hname, hstem, hext⟩ := isPageSource_iff.1 hsource
  have hdot : '.' ∉ ext := by rcases hext with rfl | rfl <;> decide
  obtain ⟨folders, n, rfl⟩ := (List.eq_nil_or_concat' ns).resolve_left hns0
  obtain ⟨ha, hnp, -, h0⟩ := ofPieces_tight (Tight.of_isName hns) hns0 fun m hm => (hns m hm).2.1
  obtain rfl : n = stem ++ '.' :: ext := by
    have hsp : s.pieces = c.layout.pagesDir.folderPieces ++ folders ++ [n] := by
      rw [hfound, pieces_join ha (.inr h0), hnp, List.append_assoc]
    rw [fileName?_of_pieces hsp (hns n (by simp))] at hname
    exact Option.some.inj hname
  refine ⟨folders, stem, ext, hns, hstem, hext, hfound, ?_⟩
  have hn : IsName (stem ++ '.' :: ext) := hns _ (by simp)
  have hss : '/' ∉ stem := fun h => hn.2.1 (List.mem_append_left _ h)
  obtain ⟨ws, hrel, hz, hws, hiff⟩ := exists_pageRelative_join (l := c.layout) hb
    (Config.validate_eq_ok_iff.1 hv).2.2.1 hns
  rw [← hfound] at hrel
  have hleft : ∀ x ∈ ws ++ [nameWith stem "html".toList], '/' ∉ x :=
    List.forall_mem_append.2
      ⟨hws, List.forall_mem_singleton.2 (slash_not_mem_nameWith hss (by decide))⟩
  have hright : ∀ x ∈ folders ++ [stem ++ '.' :: "html".toList], '/' ∉ x :=
    List.forall_mem_append.2 ⟨fun x hx => (hns x (List.mem_append_left _ hx)).2.1,
      List.forall_mem_singleton.2 (by simp [hss])⟩
  have hname' : nameWith stem "html".toList = stem ++ '.' :: "html".toList ↔ stem ≠ ['.'] :=
    nameWith_eq_iff (by decide)
  rw [outputPath_eq hrel hz hws hn hstem hdot]
  refine Iff.trans ?_ (and_congr hiff hname')
  constructor
  · intro h
    have heq := join_ofPieces_injective (hz.concat (ofPiece?_nameWith hstem _))
      ((Tight.of_isName hns).concat (ofPiece?_ne_none (two_le_length_append hstem _)))
      (by simp) (by simp) hleft hright h
    exact (List.append_inj' heq rfl).imp_right fun h => List.singleton_injective h
  · rintro ⟨rfl, h⟩
    rw [h]
    rfl

/-- A site with a folder of the same name in the folder of its pages. -/
def nestedTree : FileTree where
  entries :=
    [(["s"], .folder), (["s", "src"], .folder), (["s", "src", "index.html"], .file .empty),
      (["s", "src", "pages"], .folder), (["s", "src", "pages", "pages"], .folder),
      (["s", "src", "pages", "pages", "a.md"], .file .empty)]

/-- The configuration of that site, where the folder of the pages is spelled in the given way. -/
def nestedConfig (pages : String) : Config :=
  { input := ⟨"/s/src/index.html"⟩, output := ⟨"/s/dist"⟩, pages := ⟨pages⟩ }

/-- Only the first of the equal names is taken off. -/
theorem outputPath_of_mem_files_sample :
    (nestedConfig "pages//").validate nestedTree = .ok () ∧
      (∃ folders stem ext, (∀ n ∈ folders ++ [stem ++ '.' :: ext], IsName n) ∧ stem ≠ [] ∧
        (ext = ['h', 't', 'm', 'l'] ∨ ext = ['m', 'd']) ∧
        ⟨"/s/src/pages//pages/a.md"⟩ = (nestedConfig "pages//").layout.pagesDir.join
          (ofPieces false (folders ++ [stem ++ '.' :: ext])) ∧
        ((nestedConfig "pages//").layout.outputPath ⟨"/s/src/pages//pages/a.md"⟩ =
            (nestedConfig "pages//").output.join
              (ofPieces false (folders ++ [stem ++ '.' :: "html".toList])) ↔
          (nestedConfig "pages//").pages.isDotted = false ∧ stem ≠ ['.'])) ∧
      (nestedConfig "pages//").layout.outputPath ⟨"/s/src/pages//pages/a.md"⟩ =
        ⟨"/s/dist/pages/a.html"⟩ := by
  have h := outputPath_of_mem_files (c := nestedConfig "pages//") (t := nestedTree)
    (s := ⟨"/s/src/pages//pages/a.md"⟩) (by decide) (by decide +kernel) (by decide +kernel)
    (by decide +kernel) (by decide +kernel) (by decide +kernel)
  refine ⟨by decide +kernel, h, ?_⟩
  obtain ⟨folders, stem, ext, hnames, -, hext, hs, hiff⟩ := h
  -- the place of the source has one spelling as a list of names
  have hplace : folders ++ [stem ++ '.' :: ext] = ["pages".toList] ++ ["a.md".toList] := by
    refine join_ofPieces_injective (.of_isName hnames) (.of_isName (by decide)) (by simp) (by simp)
      (fun x hx => (hnames x hx).2.1) (by decide) (hs.symm.trans ?_)
    decide +kernel
  obtain ⟨rfl, hname⟩ := List.append_inj' hplace rfl
  obtain rfl : stem = ['a'] := by
    rcases hext with rfl | rfl
    · have hlast := congrArg List.getLast? (List.singleton_injective hname)
      simp at hlast
    · exact List.append_cancel_right (List.singleton_injective hname)
  rw [hiff.2 ⟨by decide, by decide⟩]
  decide +kernel

/-- The name of a folder of the pages that is spelled with a step `.` is left. -/
theorem outputPath_keeps_pages :
    nestedTree.Named ∧ (nestedConfig "./pages").validate nestedTree = .ok () ∧
      (nestedConfig "./pages").base.isAbsolute = true ∧
      ⟨"/s/src/./pages/pages/a.md"⟩ ∈ nestedTree.files (nestedConfig "./pages").layout.pagesDir ∧
      (nestedConfig "./pages").layout.pagesDir.join ⟨"pages/a.md"⟩ =
        ⟨"/s/src/./pages/pages/a.md"⟩ ∧
      (nestedConfig "./pages").layout.outputPath ⟨"/s/src/./pages/pages/a.md"⟩ =
        ⟨"/s/dist/pages/pages/a.html"⟩ ∧
      (nestedConfig "./pages").output.join (Path.withExtension ⟨"pages/a.md"⟩ "html") =
        ⟨"/s/dist/pages/a.html"⟩ := by
  decide +kernel

end Layout

end StaticSite

import StaticSite.Build
import StaticSite.Proofs.Config
import StaticSite.Proofs.Path.Rest

/-!
# What is left of the sources

Before a build, the output folder is emptied if that is asked for, and folders are made
(`prepareOutput_cases`). A file is gone after that if and only if it lies in the folder that is
emptied (`readFile_prepareOutput`). An accepted configuration keeps the input document, and a source
if it does not lie in the output folder (`Config.prepareOutput_of_load`). That the folders of the
pages, the static files and the components do not lie there is not checked
(`Config.prepareOutput_loses_page`).
-/

namespace StaticSite

open StaticSite.Path

namespace FileTree

variable {t t' : FileTree} {p o : Path}

/-- What stood at the places is still there. -/
theorem readFile_of_keeps (hp : .parent ∉ p.components) {content : ByteArray}
    (h : t.readFile p = .ok content)
    (hkeep : ∀ place, t.locate p = .ok place → ∀ q e, q <+: place → t.entry? q = some e →
      t'.entry? q = some e) : t'.readFile p = .ok content := by
  obtain ⟨place, hl, he⟩ := readFile_eq_ok_iff.1 h
  exact readFile_eq_ok_iff.2
    ⟨place, locate_mono hp (hkeep place hl) hl, hkeep place hl place _ List.prefix_rfl he⟩

theorem steps_of_locate_absolute (ha : p.isAbsolute = true) (hp : .parent ∉ p.components)
    {place : Place} (h : t.locate p = .ok place) : p.components = .root :: place.steps := by
  rw [components_of_isAbsolute ha, steps_of_locate hp h]

end FileTree

open FileTree

variable {t : FileTree} {p o : Path} {clean : Bool}

theorem removeFolder_eq_ok_iff {t' : FileTree} : t.removeFolder p = .ok t' ↔
    ∃ place, t.locate p = .ok place ∧ t.entry? place = some .folder ∧ t' = t.removeUnder place := by
  rw [removeFolder]
  rcases t.locate p with e | place
  · exact ⟨fun h => (nomatch h), fun ⟨_, h, _⟩ => (nomatch h)⟩
  · simp only [bind, Except.bind]
    constructor
    · intro h
      split at h
      · exact ⟨place, rfl, ‹_›, (Except.ok.inj h).symm⟩
      · cases h
      · cases h
    · rintro ⟨_, h, he, rfl⟩
      rw [Except.ok.inj h, he]

theorem addsFolders_prepareOutput (t : FileTree) (o : Path) :
    t.AddsFolders (prepareOutput t o false).1 := by
  have h := addsFolders_createFolders t o
  rw [prepareOutput, Bool.false_and, if_neg Bool.false_ne_true]
  dsimp only
  split <;> rename_i hc <;> rwa [hc] at h

theorem prepareOutput_of_removeFolder {t' : FileTree} (h : t.removeFolder o = .ok t') :
    prepareOutput t o true = prepareOutput t' o false := by
  obtain ⟨place, hl, he, -⟩ := removeFolder_eq_ok_iff.1 h
  have hfound : t.hasPath o = true := by
    rw [hasPath, find?_eq_some_iff.2 ⟨place, hl, he⟩]
    rfl
  rw [prepareOutput, hfound, if_pos (by decide), h]
  rfl

/-- The output folder is emptied if that is asked for and there is one, and folders are made. -/
theorem prepareOutput_cases (t : FileTree) (o : Path) (clean : Bool) :
    (∃ place, clean = true ∧ t.locate o = .ok place ∧ t.entry? place = some .folder ∧
        (t.removeUnder place).AddsFolders (prepareOutput t o clean).1) ∨
      ¬(clean = true ∧ t.isFolder o = true) ∧ t.AddsFolders (prepareOutput t o clean).1 := by
  by_cases hc : clean = true ∧ t.isFolder o = true
  · obtain ⟨place, hl, he⟩ := isFolder_iff.1 hc.2
    refine .inl ⟨place, hc.1, hl, he, ?_⟩
    rw [hc.1, prepareOutput_of_removeFolder (removeFolder_eq_ok_iff.2 ⟨place, hl, he, rfl⟩)]
    exact addsFolders_prepareOutput _ o
  · refine .inr ⟨hc, ?_⟩
    rw [prepareOutput]
    split
    · exact .refl t
    · rename_i t' ht'
      split at ht'
      · rename_i hclean
        rw [Bool.and_eq_true] at hclean
        obtain ⟨place, hl, he, -⟩ := removeFolder_eq_ok_iff.1 ht'
        exact absurd ⟨hclean.1, isFolder_iff.2 ⟨place, hl, he⟩⟩ hc
      · rw [← Except.ok.inj ht']
        exact addsFolders_prepareOutput t o

/-- A file is gone if and only if it lies in the folder that was emptied. -/
theorem readFile_prepareOutput (ha : p.isAbsolute = true) (hp : .parent ∉ p.components)
    (ho : ∀ place, t.locate o = .ok place → o.components = .root :: place.steps)
    {content : ByteArray} (h : t.readFile p = .ok content) :
    (prepareOutput t o clean).1.readFile p = .ok content ↔
      ¬(clean = true ∧ t.isFolder o = true ∧ p.startsWith o = true) := by
  obtain ⟨q, hl, he⟩ := readFile_eq_ok_iff.1 h
  have hq : q ≠ [] := by
    rintro rfl
    cases (held_nil t).symm.trans he
  obtain ⟨place, hclean, hlo, hfolder, hadds⟩ | ⟨hnot, hadds⟩ := prepareOutput_cases t o clean
  · have hstarts : p.startsWith o = true ↔ place <+: q := by
      rw [startsWith_iff, ho place hlo, steps_of_locate_absolute ha hp hl, List.prefix_cons_inj,
        Place.steps_isPrefix_iff]
    have hiff : ¬(clean = true ∧ t.isFolder o = true ∧ p.startsWith o = true) ↔ ¬place <+: q := by
      rw [hstarts, isFolder_iff]
      exact not_congr ⟨fun h => h.2.2, fun h => ⟨hclean, ⟨place, hlo, hfolder⟩, h⟩⟩
    rw [hiff]
    constructor
    · intro h' hpre
      obtain ⟨q', hl', he'⟩ := readFile_eq_ok_iff.1 h'
      obtain rfl : q' = q := Place.steps_injective ((steps_of_locate hp hl').trans
        (steps_of_locate hp hl).symm)
      rw [hadds.file_iff, held_removeUnder t hq, if_pos hpre] at he'
      cases he'
    · intro hpre
      refine readFile_of_keeps hp h fun q' hl' r e hr hre => hadds.keeps ?_
      obtain rfl := Except.ok.inj (hl'.symm.trans hl)
      by_cases hr0 : r = []
      · rw [hr0, held_nil] at hre ⊢
        exact hre
      · rw [held_removeUnder t hr0, if_neg fun h => hpre (h.trans hr), hre]
  · refine iff_of_true (readFile_of_keeps hp h fun _ _ _ _ _ => hadds.keeps) fun h => ?_
    exact hnot ⟨h.1, h.2.1⟩

namespace Config

/-- The path is absolute and has no steps `..`. -/
def IsDirect (p : Path) : Prop := p.isAbsolute = true ∧ .parent ∉ p.components

theorem IsDirect.of_components {p : Path} {place : Place}
    (h : p.components = .root :: place.steps) : IsDirect p := by
  refine ⟨isAbsolute_of_components h, ?_⟩
  rw [h, List.mem_cons, not_or]
  exact ⟨nofun, parent_not_mem_steps place⟩

theorem IsDirect.join {p q : Path} (h : IsDirect p) (hq : staysInside q = true) :
    IsDirect (p.join q) ∧ (p.join q).components = p.components ++ stepsOf q.chars := by
  obtain ⟨hqa, ns, hns, -⟩ := exists_of_staysInside hq
  have hc := components_join hqa (chars_ne_nil h.1)
  refine ⟨⟨by rw [isAbsolute_join p hqa, h.1], ?_⟩, hc⟩
  rw [hc, hns, List.mem_append, not_or]
  refine ⟨h.2, fun hm => ?_⟩
  obtain ⟨n, -, hn⟩ := List.mem_map.1 hm
  cases hn

variable {s : Surroundings} {l : CommandLine} {c : Config}

/-- The output folder of a configuration that was loaded is spelled as its place. -/
theorem components_output_of_load (h : load s t l = .ok c) {place : Place}
    (hl : t.locate c.output = .ok place) : c.output.components = .root :: place.steps := by
  obtain ⟨⟨c₀, rfl⟩, -⟩ := exists_of_load h
  exact components_of_locate_settle hl

/-- The input of a configuration that was loaded is a file, and it and the base folder are spelled
as their places. -/
theorem exists_input_of_load (h : load s t l = .ok c) :
    ∃ (place : Place) (content : ByteArray), place ≠ [] ∧ t.readFile c.input = .ok content ∧
      t.entry? place = some (.file content) ∧ c.input.components = .root :: place.steps ∧
      c.base.components = .root :: Place.steps place.dropLast := by
  obtain ⟨⟨c₀, hc⟩, hv⟩ := exists_of_load h
  obtain ⟨content, hread⟩ := isFile_iff.1 (validate_eq_ok_iff.1 hv).1
  obtain ⟨place, hl, he⟩ := readFile_eq_ok_iff.1 hread
  have hinput : c.input.components = .root :: place.steps := by
    subst hc
    exact components_of_locate_settle hl
  have hne : place ≠ [] := by
    rintro rfl
    cases (held_nil t).symm.trans he
  exact ⟨place, content, hne, hread, he, hinput, components_base hinput hne⟩

/-- A file in a folder of the sources is kept, unless it lies in the output folder and that is
emptied. -/
theorem prepareOutput_of_load (h : load s t l = .ok c) :
    c.base.startsWith c.output = false ∧
      (∃ content, t.readFile c.input = .ok content ∧
        (prepareOutput t c.output c.clean).1.readFile c.input = .ok content) ∧
      ∀ dir ∈ [c.base, c.layout.pagesDir, c.layout.staticDir, c.layout.componentsDir],
        ∀ rel, staysInside rel = true → ∀ content, t.readFile (dir.join rel) = .ok content →
          ((prepareOutput t c.output c.clean).1.readFile (dir.join rel) = .ok content ↔
            ¬(c.clean = true ∧ t.isFolder c.output = true ∧
              (dir.join rel).startsWith c.output = true)) := by
  have hv := validate_eq_ok_iff.1 (exists_of_load h).2
  obtain ⟨-, -, hpages, hstatic, hcomponents, hapart⟩ := hv
  obtain ⟨place, content, hne, hread, hfile, hinput, hbase⟩ := exists_input_of_load h
  have houtput (place) (hl : t.locate c.output = .ok place) := components_output_of_load h hl
  refine ⟨hapart, ⟨content, hread, ?_⟩, fun dir hdir rel hrel content hread => ?_⟩
  · obtain ⟨ha, hp⟩ := IsDirect.of_components hinput
    rw [readFile_prepareOutput ha hp houtput hread]
    rintro ⟨-, hfolder, hstarts⟩
    -- a folder that holds the input holds the base folder
    obtain ⟨q, hl, hq⟩ := isFolder_iff.1 hfolder
    rw [startsWith_iff, houtput q hl, hinput, List.prefix_cons_inj, Place.steps_isPrefix_iff,
      ← List.dropLast_concat_getLast hne, List.prefix_concat_iff, List.dropLast_concat_getLast]
      at hstarts
    rcases hstarts with rfl | hstarts
    · cases hq.symm.trans hfile
    · rw [Bool.eq_false_iff, ne_eq, startsWith_iff, houtput q hl, hbase, List.prefix_cons_inj,
        Place.steps_isPrefix_iff] at hapart
      exact hapart hstarts
  · have hdirect : IsDirect dir := by
      have hb := IsDirect.of_components hbase
      simp only [List.mem_cons, List.not_mem_nil, or_false] at hdir
      rcases hdir with rfl | rfl | rfl | rfl
      · exact hb
      · exact (hb.join hpages).1
      · exact (hb.join hstatic).1
      · exact (hb.join hcomponents).1
    obtain ⟨⟨ha, hp⟩, -⟩ := hdirect.join hrel
    exact readFile_prepareOutput ha hp houtput hread

/-- A site that was built before. -/
def builtTree : FileTree where
  entries :=
    [(["s"], .folder), (["s", "quilt.toml"], .file .empty), (["s", "src"], .folder),
      (["s", "src", "index.html"], .file .empty), (["s", "src", "pages"], .folder),
      (["s", "src", "pages", "a.html"], .file .empty), (["s", "dist"], .folder),
      (["s", "dist", "a.html"], .file .empty)]

/-- The configuration of that site, with the given output folder. -/
def builtConfig (output : Path) : Config :=
  { file := ⟨"/s/quilt.toml"⟩, root := ⟨"/s/"⟩, input := ⟨"/s/src/index.html"⟩, output }

/-- A page stays while the output folder is emptied. -/
theorem prepareOutput_of_load_sample :
    load ⟨⟨"/s"⟩, none⟩ builtTree {} = .ok (builtConfig ⟨"/s/dist"⟩) ∧
      (builtConfig ⟨"/s/dist"⟩).clean = true ∧ builtTree.isFolder ⟨"/s/dist"⟩ = true ∧
      (prepareOutput builtTree ⟨"/s/dist"⟩ true).1.readFile ⟨"/s/src/pages/a.html"⟩ =
        .ok .empty := by
  have hload : load ⟨⟨"/s"⟩, none⟩ builtTree {} = .ok (builtConfig ⟨"/s/dist"⟩) := by
    decide +kernel
  have hkept := (prepareOutput_of_load hload).2.2 (builtConfig ⟨"/s/dist"⟩).layout.pagesDir
    (by simp) ⟨"a.html"⟩ (by decide +kernel) .empty (by decide +kernel)
  exact ⟨hload, rfl, by decide +kernel, hkept.2 (by decide +kernel)⟩

/-- A configuration whose output folder is the folder of the pages is accepted, and its pages are
removed. -/
theorem prepareOutput_loses_page :
    load ⟨⟨"/s"⟩, none⟩ builtTree { output := some ⟨"src/pages"⟩ } =
        .ok (builtConfig ⟨"/s/src/pages"⟩) ∧
      (builtConfig ⟨"/s/src/pages"⟩).clean = true ∧
      (builtConfig ⟨"/s/src/pages"⟩).layout.pagesDir = ⟨"/s/src/pages"⟩ ∧
      builtTree.readFile ⟨"/s/src/pages/a.html"⟩ = .ok .empty ∧
      (prepareOutput builtTree ⟨"/s/src/pages"⟩ true).1.readFile ⟨"/s/src/pages/a.html"⟩ =
        .error .missing := by
  decide +kernel

end Config

end StaticSite

import StaticSite.Config
import StaticSite.Proofs.FileTree

/-!
# Configurations that are accepted

A configuration is accepted if its input is a file with the extension of a page, its three
subfolders stay inside the base folder, and the output folder does not hold that folder
(`Config.validate_eq_ok_iff`). A subfolder that stays inside is spelled by names, with a step `.` in
front at most (`Config.exists_of_staysInside`). The input and the output folder are spelled as their
places if they lead anywhere (`Config.components_of_locate_settle`).
-/

namespace StaticSite

namespace Config

open StaticSite.Path

theorem validate_eq_ok_iff {c : Config} {t : FileTree} :
    c.validate t = .ok () ↔ t.isFile c.input = true ∧ isPageSource c.input = true ∧
      staysInside c.pages = true ∧ staysInside c.static = true ∧ staysInside c.components = true ∧
      c.base.startsWith c.output = false := by
  have hfile : t.isFile c.input = true → t.hasPath c.input = true := by
    rw [FileTree.isFile, FileTree.hasPath]
    intro h
    split at h
    · rename_i hf
      rw [hf]
      rfl
    · cases h
  simp only [validate, checkFolder, bind, Except.bind, pure, Except.pure]
  by_cases h1 : t.isFile c.input = true
  · rw [hfile h1, h1]
    by_cases h2 : isPageSource c.input = true <;> by_cases h3 : staysInside c.pages = true <;>
      by_cases h4 : staysInside c.static = true <;>
      by_cases h5 : staysInside c.components = true <;>
      by_cases h6 : c.base.startsWith c.output = true <;> simp [h2, h3, h4, h5, h6]
  · by_cases h0 : t.hasPath c.input = true <;> simp [h0, h1]

/-- The steps of a folder that stays inside are names, with a `.` in front at most. -/
theorem exists_of_staysInside {p : Path} (h : staysInside p = true) :
    p.isAbsolute = false ∧ ∃ ns : List (List Char), stepsOf p.chars = ns.map .name ∧
      (p.components = ns.map .name ∨ p.components = .current :: ns.map .name) := by
  rw [staysInside, List.all_eq_true, components_eq_lead] at h
  have hsteps : ∃ ns : List (List Char), stepsOf p.chars = ns.map .name := by
    have h' : ∀ c ∈ stepsOf p.chars, ∃ n, c = .name n := by
      intro c hc
      have hin := h c (List.mem_append_right _ hc)
      obtain ⟨x, -, hx⟩ := List.mem_filterMap.1 hc
      rcases eq_of_ofPiece? hx with rfl | ⟨rfl, -⟩
      · cases hin
      · exact ⟨x, rfl⟩
    generalize stepsOf p.chars = cs at h'
    induction cs with
    | nil => exact ⟨[], rfl⟩
    | cons c cs ih =>
      obtain ⟨n, rfl⟩ := h' c (List.mem_cons_self ..)
      obtain ⟨ns, rfl⟩ := ih fun d hd => h' d (List.mem_cons_of_mem _ hd)
      exact ⟨n :: ns, rfl⟩
  have ha : p.isAbsolute = false := by
    rw [Bool.eq_false_iff]
    intro ha
    rw [lead, if_pos ha] at h
    exact Bool.noConfusion (h .root (List.mem_cons_self ..))
  obtain ⟨ns, hns⟩ := hsteps
  refine ⟨ha, ns, hns, ?_⟩
  rw [components_eq_lead, hns, lead, ha, if_neg Bool.false_ne_true]
  split
  · exact .inr rfl
  · exact .inl rfl

theorem exists_of_read {s : Surroundings} {t : FileTree} {l : CommandLine} {c : Config}
    (h : read s t l = .ok c) : ∃ c₀ : Config, c = c₀.override s t l := by
  rw [read] at h
  simp only [bind, Except.bind] at h
  split at h
  · cases h
  · split at h
    · cases h
    · rename_i text _
      rcases hp : parse text with e | c₀
      · rw [hp] at h
        cases h
      · rw [hp] at h
        exact ⟨c₀, (Except.ok.inj h).symm⟩

/-- A configuration that was loaded was overridden by the command line, and is accepted. -/
theorem exists_of_load {s : Surroundings} {t : FileTree} {l : CommandLine} {c : Config}
    (h : load s t l = .ok c) : (∃ c₀ : Config, c = c₀.override s t l) ∧ c.validate t = .ok () := by
  rw [load] at h
  rcases hr : read s t l with e | c'
  · rw [hr] at h
    cases h
  · rcases hv : c'.validate t with e | ⟨⟩
    · simp only [hr, hv, bind, Except.bind] at h
      cases h
    · simp only [hr, hv, bind, Except.bind] at h
      obtain rfl := Except.ok.inj h
      exact ⟨exists_of_read hr, hv⟩

/-! ## Settled paths -/

theorem settle_eq (s : Surroundings) (t : FileTree) (p : Path) :
    (∃ place, t.locate (s.folder.join p) = .ok place ∧ s.settle t p = FileTree.pathOf place) ∨
      s.settle t p = s.folder.join p ∧
        (p.chars = [] ∨ ∀ place, t.locate (s.folder.join p) ≠ .ok place) := by
  rw [Surroundings.settle]
  split
  · rename_i he
    exact .inr ⟨rfl, .inl (by rw [chars, String.isEmpty_iff.1 he]; rfl)⟩
  · rw [FileTree.canonical?]
    rcases t.locate (s.folder.join p) with e | place
    · exact .inr ⟨rfl, .inr fun place h => by cases h⟩
    · exact .inl ⟨place, rfl, rfl⟩

theorem chars_pathOf_ne (place : Place) : (FileTree.pathOf place).chars ≠ [] := by
  rw [FileTree.pathOf_eq, chars_ofPieces]
  exact List.cons_ne_nil _ _

/-- The empty path leads nowhere. -/
theorem locate_ne_ok {t : FileTree} {p : Path} (h : p.chars = []) (place : Place) :
    t.locate p ≠ .ok place := by
  rw [ne_eq, FileTree.locate_eq_ok_iff, FileTree.checkPath, h]
  exact fun h => nomatch h.1

/-- A path that is settled below the folder of the project leads nowhere, or it is the path of the
place that it leads to. -/
theorem eq_pathOf_of_locate {s : Surroundings} {t : FileTree} {root p : Path} {place : Place}
    (h : t.locate (s.settle t ((s.settle t root).join p)) = .ok place) :
    s.settle t ((s.settle t root).join p) = FileTree.pathOf place := by
  obtain ⟨place', hl, heq⟩ | ⟨heq, hnil | hnone⟩ := settle_eq s t ((s.settle t root).join p)
  · rw [heq] at h ⊢
    rw [FileTree.eq_of_locate_pathOf (FileTree.isName_of_locate hl) h]
  · -- only in an empty folder can a path be empty
    have hroot := (chars_eq_nil_of_join hnil).1
    obtain ⟨place', -, hr⟩ | ⟨hr, -⟩ := settle_eq s t root
    · rw [hr] at hroot
      exact absurd hroot (chars_pathOf_ne place')
    · rw [hr] at hroot
      rw [heq, join_of_chars_eq_nil (chars_eq_nil_of_join hroot).1] at h
      exact absurd h (locate_ne_ok hnil place)
  · exact absurd (heq ▸ h) (hnone place)

theorem components_of_locate_settle {s : Surroundings} {t : FileTree} {root p : Path}
    {place : Place} (h : t.locate (s.settle t ((s.settle t root).join p)) = .ok place) :
    (s.settle t ((s.settle t root).join p)).components = .root :: place.steps := by
  have hnames := FileTree.isName_of_locate h
  rw [eq_pathOf_of_locate h, FileTree.components_pathOf hnames]

/-- The folder of an input that is spelled as its place is spelled as its own. -/
theorem components_base {c : Config} {place : Place} (h : c.input.components = .root :: place.steps)
    (hne : place ≠ []) : c.base.components = .root :: Place.steps place.dropLast := by
  have hanchor : c.input.anchor = [.root] := if_pos (isAbsolute_of_components h)
  have hsteps : c.input.steps = place.steps := by
    rw [components_eq, hanchor, List.singleton_append, List.cons.injEq] at h
    exact h.2
  have hparent := components_parent? c.input
  rw [hsteps, hanchor, if_neg (by simpa [Place.steps] using hne)] at hparent
  obtain ⟨q, hq, hqc⟩ := Option.map_eq_some_iff.1 hparent
  rw [base, hq, Place.steps, List.map_dropLast]
  exact hqc

end Config

end StaticSite

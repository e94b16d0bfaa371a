import StaticSite.Entry
import StaticSite.Proofs.Sources

/-!
# The pages that are chosen

While pages are chosen, the map of the files that are taken tells of each file which of the pages
chosen so far is written to it (`Layout.Records`). So a source is left out only if a page in front
of it is written to the same file, and the pages of a site are written to different files
(`Layout.entries_outputs`).
-/

namespace StaticSite

namespace Layout

variable {l : Layout} {taken : PathMap Path} {kept ps : List Path} {p first : Path}

/-- Both sources are written to the same file. -/
def sameOutput (l : Layout) (p q : Path) : Bool := (l.outputPath p).same (l.outputPath q)

/-- The map tells of each file which of the sources is written to it. -/
def Records (l : Layout) (taken : PathMap Path) (kept : List Path) : Prop :=
  ∀ file, taken.get? file = kept.find? fun q => (l.outputPath q).same file

theorem records_empty (l : Layout) : l.Records PathMap.empty [] := fun _ => rfl

theorem choose_of_taken (h : taken.get? (l.outputPath p) = some first) :
    l.choose taken (p :: ps) =
      ((l.choose taken ps).1, ⟨first, p, l.outputPath p⟩ :: (l.choose taken ps).2) := by
  rw [choose]
  dsimp only
  rw [h]

theorem choose_of_free (h : taken.get? (l.outputPath p) = none) :
    l.choose taken (p :: ps) =
      (p :: (l.choose (taken.insert (l.outputPath p) p) ps).1,
        (l.choose (taken.insert (l.outputPath p) p) ps).2) := by
  rw [choose]
  dsimp only
  rw [h]

namespace Records

/-- A file that is taken is that of a source that is kept. -/
theorem sameOutput_of_taken (h : l.Records taken kept)
    (htaken : taken.get? (l.outputPath p) = some first) :
    first ∈ kept ∧ l.sameOutput first p = true := by
  rw [h] at htaken
  have hsame := List.find?_some htaken
  exact ⟨List.mem_of_find?_eq_some htaken, hsame⟩

/-- No source that is kept is written to a file that is free. -/
theorem not_sameOutput_of_free (h : l.Records taken kept)
    (hfree : taken.get? (l.outputPath p) = none) {q : Path} (hq : q ∈ kept) :
    l.sameOutput q p = false := by
  rw [h, List.find?_eq_none] at hfree
  exact Bool.eq_false_iff.2 (hfree q hq)

/-- The file of a source that is kept is taken. -/
theorem insert (h : l.Records taken kept) (hfree : taken.get? (l.outputPath p) = none) :
    l.Records (taken.insert (l.outputPath p) p) (kept ++ [p]) := by
  intro file
  rw [PathMap.get?_insert, List.find?_append, ← h]
  split
  · rename_i hsame
    rw [← PathMap.get?_congr hsame, hfree, Option.none_or, List.find?_cons, hsame]
  · rename_i hsame
    rw [List.find?_cons, Bool.eq_false_iff.2 hsame, List.find?_nil, Option.or_none]

/-- The sources that are kept before and after are written to different files. -/
theorem pairwise_choose (h : l.Records taken kept)
    (hkept : kept.Pairwise fun p q => l.sameOutput p q = false) (ps : List Path) :
    (kept ++ (l.choose taken ps).1).Pairwise fun p q => l.sameOutput p q = false := by
  induction ps generalizing taken kept with
  | nil =>
    rw [choose, List.append_nil]
    exact hkept
  | cons p ps ih =>
    rcases hp : taken.get? (l.outputPath p) with _ | first
    · rw [choose_of_free hp, List.append_cons]
      refine ih (h.insert hp) (List.pairwise_append.2 ⟨hkept, List.pairwise_singleton _ _, ?_⟩)
      intro q hq p' hp'
      rw [List.mem_singleton.1 hp']
      exact h.not_sameOutput_of_free hp hq
    · rw [choose_of_taken hp]
      exact ih h hkept

/-- A source is kept, or one in front of it is that is written to the same file. -/
theorem kept_or_sameOutput (h : l.Records taken kept) {before after : List Path}
    (hps : ps = before ++ p :: after) :
    p ∈ (l.choose taken ps).1 ∨
    ∃ q ∈ kept ++ (l.choose taken ps).1, q ∈ kept ++ before ∧ l.sameOutput q p = true := by
  induction ps generalizing taken kept before with
  | nil => simp at hps
  | cons x ps ih =>
    rcases hx : taken.get? (l.outputPath x) with _ | first
    · rw [choose_of_free hx]
      cases before with
      | nil =>
        rw [List.nil_append, List.cons.injEq] at hps
        exact .inl (hps.1 ▸ List.mem_cons_self)
      | cons y before =>
        rw [List.cons_append, List.cons.injEq] at hps
        rw [List.append_cons, List.append_cons kept y before, ← hps.1]
        exact (ih (h.insert hx) hps.2).imp_left (List.mem_cons_of_mem _)
    · rw [choose_of_taken hx]
      cases before with
      | nil =>
        rw [List.nil_append, List.cons.injEq] at hps
        obtain ⟨hfirst, hsame⟩ := h.sameOutput_of_taken hx
        rw [hps.1] at hsame
        exact .inr ⟨first, List.mem_append_left _ hfirst, List.mem_append_left _ hfirst, hsame⟩
      | cons y before =>
        rw [List.cons_append, List.cons.injEq] at hps
        refine (ih h hps.2).imp_right fun ⟨q, hq, hbefore, hsame⟩ => ⟨q, hq, ?_, hsame⟩
        exact (List.mem_append.1 hbefore).elim (List.mem_append_left _) fun hb =>
          List.mem_append_right _ (List.mem_cons_of_mem _ hb)

/-- A conflict tells of a source that is kept and is written to the same file. -/
theorem conflict (h : l.Records taken kept) {c : EntryConflict}
    (hc : c ∈ (l.choose taken ps).2) :
    c.first ∈ kept ++ (l.choose taken ps).1 ∧ l.sameOutput c.first c.later = true ∧
      c.output = l.outputPath c.later := by
  induction ps generalizing taken kept with
  | nil => cases hc
  | cons x ps ih =>
    rcases hx : taken.get? (l.outputPath x) with _ | first
    · rw [choose_of_free hx] at hc ⊢
      rw [List.append_cons]
      exact ih (h.insert hx) hc
    · rw [choose_of_taken hx] at hc ⊢
      rcases List.mem_cons.1 hc with hc | hc
      · obtain ⟨hfirst, hsame⟩ := h.sameOutput_of_taken hx
        rw [hc]
        refine ⟨List.mem_append_left _ hfirst, hsame, ?_⟩
        -- `rfl` would compare the two paths by evaluating them.
        dsimp only
      · exact ih h hc

end Records

theorem sublist_choose (l : Layout) (taken : PathMap Path) (ps : List Path) :
    (l.choose taken ps).1.Sublist ps := by
  induction ps generalizing taken with
  | nil => exact .slnil
  | cons p ps ih =>
    rcases hp : taken.get? (l.outputPath p) with _ | first
    · rw [choose_of_free hp]
      exact (ih _).cons_cons p
    · rw [choose_of_taken hp]
      exact (ih _).cons p

/-- Each source is kept or is in conflict with one that is. -/
theorem perm_choose (l : Layout) (taken : PathMap Path) (ps : List Path) :
    ((l.choose taken ps).1 ++ (l.choose taken ps).2.map (·.later)).Perm ps := by
  induction ps generalizing taken with
  | nil => exact .nil
  | cons p ps ih =>
    rcases hp : taken.get? (l.outputPath p) with _ | first
    · rw [choose_of_free hp]
      exact (ih _).cons p
    · rw [choose_of_taken hp, List.map_cons]
      exact List.perm_middle.trans ((ih _).cons p)

/-- The first page is the input. The pages stand in the order in which they were found, they are
written to different files, and a source that is no page is written to the same file as a page that
was found before it. -/
theorem entries_outputs (l : Layout) (found : List Path) :
    (l.entries found).1.head? = some l.input ∧
    (l.entries found).1.Sublist
      (l.input :: found.filter fun p => isPageSource p && !p.same l.input) ∧
    (l.entries found).1.Pairwise (fun p q => (l.outputPath p).same (l.outputPath q) = false) ∧
    (∀ before p after, found = before ++ p :: after → isPageSource p = true →
      p.same l.input = false →
        p ∈ (l.entries found).1 ∨
        ∃ q ∈ (l.entries found).1, q ∈ l.input :: before ∧
          (l.outputPath q).same (l.outputPath p) = true) ∧
    ((l.entries found).1 ++ (l.entries found).2.map (·.later)).Perm
      (l.input :: found.filter fun p => isPageSource p && !p.same l.input) ∧
    ∀ c ∈ (l.entries found).2, c.first ∈ (l.entries found).1 ∧
      (l.outputPath c.first).same (l.outputPath c.later) = true ∧
      c.output = l.outputPath c.later := by
  have hempty := l.records_empty
  have houtputs := hempty.pairwise_choose .nil (l.candidates found)
  rw [List.nil_append] at houtputs
  refine ⟨?_, l.sublist_choose _ _, houtputs, ?_, l.perm_choose _ _, fun c hc => hempty.conflict hc⟩
  · rw [entries, candidates, choose_of_free (PathMap.get?_empty _), List.head?_cons]
  · intro before p after hfound hpage hinput
    have hp : (isPageSource p && !p.same l.input) = true := by rw [hpage, hinput]; rfl
    have hcandidates : l.candidates found =
        (l.input :: before.filter fun p => isPageSource p && !p.same l.input) ++
          p :: after.filter fun p => isPageSource p && !p.same l.input := by
      rw [candidates, hfound, List.filter_append, List.filter_cons, if_pos hp, List.cons_append]
    refine (hempty.kept_or_sameOutput hcandidates).imp_right fun ⟨q, hq, hbefore, hsame⟩ =>
      ⟨q, hq, ?_, hsame⟩
    exact (List.mem_cons.1 hbefore).elim (fun h => h ▸ List.mem_cons_self) fun h =>
      List.mem_cons_of_mem _ (List.mem_filter.1 h).1

/-- A page with two sources, and a page in the place of the input. -/
theorem entries_outputs_sample :
    let l : Layout := ⟨⟨"/s/i.html"⟩, ⟨"/s"⟩, ⟨"p"⟩, ⟨"/d"⟩, ⟨"static"⟩, ⟨"c"⟩⟩
    let found : List Path := [⟨"/s/p/a.html"⟩, ⟨"/s/p/i.md"⟩, ⟨"/s/p/./a.md"⟩, ⟨"/s/p/n.txt"⟩]
    (l.entries found).1 = [⟨"/s/i.html"⟩, ⟨"/s/p/a.html"⟩] ∧
    ∃ q ∈ (l.entries found).1, q ∈ [⟨"/s/i.html"⟩, ⟨"/s/p/a.html"⟩, ⟨"/s/p/i.md"⟩] ∧
      (l.outputPath q).same (l.outputPath ⟨"/s/p/./a.md"⟩) = true := by
  intro l found
  have hentries : (l.entries found).1 = [⟨"/s/i.html"⟩, ⟨"/s/p/a.html"⟩] := by decide +kernel
  have hdropped : (⟨"/s/p/./a.md"⟩ : Path) ∉ (l.entries found).1 := by
    rw [hentries]
    decide +kernel
  obtain ⟨-, -, -, hwinner, -⟩ := entries_outputs l found
  exact ⟨hentries, (hwinner [⟨"/s/p/a.html"⟩, ⟨"/s/p/i.md"⟩] ⟨"/s/p/./a.md"⟩ [⟨"/s/p/n.txt"⟩] rfl
    (by decide +kernel) (by decide +kernel)).resolve_left hdropped⟩

end Layout

end StaticSite

import StaticSite.Proofs.Component.Nesting
import StaticSite.Proofs.Component.Pruning
import StaticSite.Proofs.Html.Sight

/-!
# Whether dropped scripts can be noticed

A page that drops the scripts of later instances should be the page that keeps them all, but for the
scripts of components. Whether the content of an instance is blank decides between the content and
the fallback of its slots, and a script is not blank. If all that a component shows without opening
slots is a script that was dropped, another fallback may be chosen (`compilePage_notices_script`).

No choice depends on a dropped script as long as each component has the same sight without it
(`compilePage_strips_alike`).
-/

namespace StaticSite

open StaticSite.Html

theorem Html.BlankAlike.laws : PruningLaws BlankAlike :=
  ⟨.nil, .append, .leaf, .script, .element, .stamp, .applyProperties, .tagScripts,
    fun h => h.pruned.hasSlot, BlankAlike.all_isBlank, .fill, .fill_none⟩

namespace Compiler

open Compile Link

variable {c : Compiler} {p : Path} {d : Document}

/-- Whether the compile of the page, which may fail, meets nothing but components that the check
allows. -/
def allows (c : Compiler) (ok : Path → Forest → Bool) (p : Path) : Bool :=
  match (outcome (c.compilePageBy (c.expandChecked ok c.depth) p) {}).1 with
  | .error (.tooDeep _) => false
  | _ => true

/-- The expansion of a page without its last step, if the page is allowed. -/
theorem ne_tooDeep_of_allows {ok : Path → Forest → Bool} (h : c.allows ok p = true)
    (hd : c.sources.document p = .ok d) (q : Path) :
    (outcome (c.expandChecked ok c.depth [p] d) {}).1 ≠ .error (.tooDeep q) := by
  intro he
  unfold allows at h
  rw [outcome_compilePageBy, hd] at h
  dsimp only at h
  rw [outcome_bind] at h
  generalize outcome (c.expandChecked ok c.depth [p] d) {} = o at he h
  obtain ⟨e | ns, t⟩ := o
  · cases he
    cases h
  · cases he

/-- The page that an expansion makes, without the scripts of components. -/
theorem finishPage_strips (x : Compile Forest) (s : Progress) :
    (outcome (x >>= c.finishPage) s).1.map stripScripts =
      match outcome x s with
      | (.ok ns, t) =>
        .ok (stripScripts (if c.dedupe then (retainFirst t.scope.scripts ns).1 else ns))
      | (.error e, _) => .error e := by
  rw [outcome_bind]
  rcases outcome x s with ⟨e | ns, t⟩
  · rfl
  · dsimp only
    rw [outcome_finishPage]
    split
    · rfl
    · rfl

/-- Which scripts of components are dropped cannot be noticed: the page fails as if none were, or is
the same page without the scripts of components, if each component has the same sight without the
scripts that it drops. A component has if and only if no instances around it can be blank where they
would not be otherwise. -/
theorem compilePage_strips_alike (c : Compiler) (p : Path)
    (hok : (c.deduping true).allows (fun _ => keepsSight) p = true) :
    (outcome ((c.deduping true).compilePage p) {}).1.map stripScripts =
        (outcome ((c.deduping false).compilePage p) {}).1.map stripScripts ∧
      ∀ ns, (keepsSight ns = true ↔
        ∀ i, (vacated i (retainFirst PathMap.empty ns).1).all Node.isBlank =
          (vacated i ns).all Node.isBlank) := by
  refine ⟨?_, fun ns => keepsSight_iff⟩
  have hsources : (c.deduping true).sources = c.sources ∧ (c.deduping false).sources = c.sources :=
    ⟨rfl, rfl⟩
  have hdepth : (c.deduping false).depth = (c.deduping true).depth := rfl
  unfold compilePage
  rw [outcome_compilePageBy, outcome_compilePageBy, hsources.1, hsources.2]
  rcases hd : c.sources.document p with e | d
  · rfl
  dsimp only
  have hnot := ne_tooDeep_of_allows hok (hsources.1 ▸ hd)
  have hsame := (expandChecked_agree (c.deduping true) (fun _ => keepsSight) (c.deduping true).depth
    [p] d {}).cases (fun _ _ h => h) (fun h => h) hnot
  have hpruned := (expandChecked_pruning (c := c) BlankAlike.laws BlankAlike.retainFirst
    (c.deduping true).depth [p] d).cases (fun _ _ h => h) (fun h => h) hnot
  rw [finishPage_strips, finishPage_strips, hdepth]
  rcases hsame with ⟨_, ns, _, _, s, hchecked, hdropped, -, rfl⟩ | ⟨e, _, _, hchecked, hdropped⟩
  · rcases hpruned with ⟨_, ns', ms, _, t, hchecked', hkept, -, hnm⟩ | ⟨_, _, _, he, -⟩
    · cases hchecked.symm.trans hchecked'
      rw [hdropped, hkept]
      exact congrArg Except.ok (hnm.pruned.retainFirst s.scope.scripts).stripScripts_eq
    · cases hchecked.symm.trans he
  · rcases hpruned with ⟨_, _, _, _, _, hns, -, -, -⟩ | ⟨_, _, _, hchecked', hkept⟩
    · cases hchecked.symm.trans hns
    · cases hchecked.symm.trans hchecked'
      rw [hdropped, hkept]

/-- A site whose page copies content with scripts, shows the fallback of a slot, and misses a
component. -/
def copyingContentSite : PathMap (Except String String) :=
  ⟨[(⟨"/s/index.html"⟩,
      .ok "<x-two><x-f></x-f></x-two><x-two> </x-two><x-none>n</x-none><script>p()</script>"),
    (⟨"/s/c/two.html"⟩, .ok "<p><slot>none</slot></p><b><slot></slot></b>"),
    (⟨"/s/c/f.html"⟩, .ok "<slot><x-g></x-g></slot><i><x-g></x-g></i><script>f()</script>"),
    (⟨"/s/c/g.html"⟩, .ok "<script>g()</script>")]⟩

theorem compilePage_strips_alike_sample :
    ((siteCompiler copyingContentSite true true).deduping true).allows (fun _ => keepsSight)
        ⟨"/s/index.html"⟩ = true ∧
      (outcome (((siteCompiler copyingContentSite true true).deduping true).compilePage
          ⟨"/s/index.html"⟩) {}).1.map stripScripts =
        (outcome (((siteCompiler copyingContentSite true true).deduping false).compilePage
          ⟨"/s/index.html"⟩) {}).1.map stripScripts := by
  have hok : ((siteCompiler copyingContentSite true true).deduping true).allows
      (fun _ => keepsSight) ⟨"/s/index.html"⟩ = true := by decide +kernel
  exact ⟨hok, (compilePage_strips_alike _ _ hok).1⟩

/-- A component with a script in the fallback of a slot and another one behind it, inside instances
that fill the slot with nothing. -/
def noticingSite : PathMap (Except String String) :=
  ⟨[(⟨"/s/index.html"⟩, .ok "<x-w><x-o></x-o></x-w>"),
    (⟨"/s/c/w.html"⟩, .ok "<slot>none</slot>"),
    (⟨"/s/c/o.html"⟩, .ok "<x-f><slot></slot></x-f>"),
    (⟨"/s/c/f.html"⟩, .ok "<slot><x-g></x-g></slot><x-g></x-g>"),
    (⟨"/s/c/g.html"⟩, .ok "<script>g()</script>")]⟩

/-- A page can show a fallback because a script was dropped. -/
theorem compilePage_notices_script :
    (outcome ((siteCompiler noticingSite true true).compilePage ⟨"/s/index.html"⟩) {}).1.map
        stripScripts = .ok [.text "none"] ∧
      (outcome ((siteCompiler noticingSite true false).compilePage ⟨"/s/index.html"⟩) {}).1.map
        stripScripts = .ok [] := by
  decide +kernel

end Compiler

end StaticSite

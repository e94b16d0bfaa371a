import StaticSite.Proofs.Component.Pruning
import StaticSite.Proofs.Component.Session

/-!
# Whether pages keep the scripts of their components

A page drops the scripts of later instances, and each component drops those of the components inside
it before its slots are filled. An instance with content then drops the fallback of each slot. If
the first copy of a script stands in a fallback, and a later one does not, the page is left without
the script (`compilePage_loses_script`).

Nothing is lost as long as in each component the scripts that are kept are inside no more slots than
the ones that are dropped (`compilePage_keeps_scripts`).
-/

namespace StaticSite

open StaticSite.Html

theorem Html.Spared.laws : PruningLaws Spared :=
  ⟨.nil, .append, .leaf, .script, .element, .stamp, .applyProperties, .tagScripts, Spared.hasSlot,
    Spared.all_isBlank, .fill, .fill_none⟩

namespace Compiler

open Compile Link

variable {c : Compiler}

/-- A page that passes the check keeps a script of every component that it has scripts of. -/
theorem exists_kept {p : Path}
    (h : (c.deduping true).checks (fun _ => keepsExposure) p = true) :
    ∃ ns ms, ((c.deduping false).pageAfter [] p).1 = .ok ns ∧
      ((c.deduping true).pageAfter [] p).1 = .ok ms ∧
      ∀ k, 0 < count (·.isScriptOf k) ns → 0 < count (·.isScriptOf k) ms := by
  obtain ⟨d, ms, t, hd, hchecked⟩ := exists_of_checks h
  obtain ⟨t', hdeduped, -⟩ := expandChecked_eq (c := c.deduping true) hchecked
  have hspared : (Link.pruning c Spared.laws).caching.Agree .fixed (fun _ => Spared) (.ok ms, t)
      (outcome ((c.deduping false).expandDocument (c.deduping false).depth [p] d) {}) := by
    rw [← hchecked]
    exact expandChecked_pruning Spared.laws Spared.retainFirst c.depth [p] d
  rcases hspared.cases (fun _ _ h => h) (fun h => h) (fun _ h => by cases h) with
    ⟨_, _, ns, _, _, hok, hkept, -, ha⟩ | ⟨_, _, _, he, -⟩
  · cases hok
    refine ⟨ns, (retainFirst PathMap.empty ms).1,
      (compilePage_ok (c := c.deduping false) hd hkept).1, (compilePage_ok hd hdeduped).1, ?_⟩
    intro k hk
    exact ha.pruned.left_flat.retainFirst_keeps rfl (ha.count_pos hk)
  · cases he

/-- A page keeps a script of every component that it has scripts of, after every session, if each of
its components keeps exposure: if in none of them instances could drop the last copy of a script
with a slot. -/
theorem compilePage_keeps_scripts (r : References) (files : PathMap (Except String String))
    (events : List Event) (p : Path)
    (hlt : ∀ q ∈ p :: pages events,
      (pageAfter ⟨r, .ofFiles files, false, true⟩ [] q).2.scope.instances < UInt32.size)
    (hok : checks ⟨r, .ofFiles files, false, true⟩ (fun _ => keepsExposure) p = true) :
    (∃ ns ms, (pageAfter ⟨r, .ofFiles files, false, false⟩ [] p).1 = .ok ns ∧
      (pageAfter ⟨r, .ofFiles files, true, true⟩ events p).1 = .ok ms ∧
      ∀ k, 0 < count (·.isScriptOf k) ns → 0 < count (·.isScriptOf k) ms) ∧
    ∀ ns, Flat ns → (keepsExposure ns = true ↔ ∀ k i, 0 < count (·.isScriptOf k) (opened i ns) →
      0 < count (·.isScriptOf k) (opened i (retainFirst PathMap.empty ns).1)) := by
  refine ⟨?_, fun ns => keepsExposure_iff⟩
  obtain ⟨ns, ms, hns, hms, hkept⟩ := exists_kept (c := ⟨r, .ofFiles files, false, true⟩) hok
  obtain ⟨ms', hms', halike⟩ := (pageAfter_resembles r files true hlt).exists_ok hms
  refine ⟨ns, ms', hns, hms', fun k hk => ?_⟩
  rw [halike.count_isScriptOf]
  exact hkept k hk

theorem compilePage_keeps_scripts_sample :
    (∀ q ∈ ⟨"/s/index.html"⟩ :: pages sampleSession,
      ((siteCompiler sampleSite false true).pageAfter [] q).2.scope.instances < UInt32.size) ∧
    (siteCompiler sampleSite false true).checks (fun _ => keepsExposure) ⟨"/s/index.html"⟩ = true ∧
    ∃ ns ms, ((siteCompiler sampleSite false false).pageAfter [] ⟨"/s/index.html"⟩).1 = .ok ns ∧
      ((siteCompiler sampleSite true true).pageAfter sampleSession ⟨"/s/index.html"⟩).1 = .ok ms ∧
      ∀ k, 0 < count (·.isScriptOf k) ns → 0 < count (·.isScriptOf k) ms := by
  have hlt : ∀ q ∈ ⟨"/s/index.html"⟩ :: pages sampleSession,
      ((siteCompiler sampleSite false true).pageAfter [] q).2.scope.instances < UInt32.size := by
    decide +kernel
  have hok : (siteCompiler sampleSite false true).checks (fun _ => keepsExposure)
      ⟨"/s/index.html"⟩ = true := by decide +kernel
  exact ⟨hlt, hok, (compilePage_keeps_scripts _ _ sampleSession _ hlt hok).1⟩

/-- A component whose first copy of a script stands in the fallback of a slot. -/
def hidingSite : PathMap (Except String String) :=
  ⟨[(⟨"/s/index.html"⟩, .ok "<x-f>hello</x-f>"),
    (⟨"/s/c/f.html"⟩, .ok "<slot><x-g></x-g></slot><x-g></x-g>"),
    (⟨"/s/c/g.html"⟩, .ok "<i>g</i><script>g()</script>")]⟩

/-- A page can lose the only script of a component. -/
theorem compilePage_loses_script :
    ((siteCompiler hidingSite true false).pageAfter [] ⟨"/s/index.html"⟩).1.toOption.map
        (count (·.isScriptOf ⟨"/s/c/g.html"⟩)) = some 1 ∧
      ((siteCompiler hidingSite true true).pageAfter [] ⟨"/s/index.html"⟩).1.toOption.map
        (count (·.isScriptOf ⟨"/s/c/g.html"⟩)) = some 0 := by
  decide +kernel

end Compiler

end StaticSite

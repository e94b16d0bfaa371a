import StaticSite.Proofs.Component.Follow

/-!
# Compiles in lockstep

Two compiles that claim the same components at the same time are served the same components. As long
as the fragments that they hand in correspond, so do those that they are served
(`Compiler.visits_caching`).
-/

namespace StaticSite

open StaticSite.Html

/-- Entries of the same state, with fragments that correspond. -/
inductive CacheEntry.Alike (F : Fragment → Fragment → Prop) : CacheEntry → CacheEntry → Prop where
  | inProgress : Alike F .inProgress .inProgress
  | compiled {f g : Fragment} (h : F f g) : Alike F (.compiled f) (.compiled g)

/-- Caches with entries that correspond for the same components. -/
def Cache.Alike (F : Fragment → Fragment → Prop) (k k' : Cache) : Prop :=
  ∀ p, Option.Rel (CacheEntry.Alike F) (k.get? p) (k'.get? p)

namespace Cache.Alike

variable {F : Fragment → Fragment → Prop} {k k' : Cache} (h : Cache.Alike F k k') (p : Path)

theorem refl (hF : ∀ f, F f f) (k : Cache) : Cache.Alike F k k := by
  intro p
  rcases k.get? p with _ | _ | f
  · exact .none
  · exact .some .inProgress
  · exact .some (.compiled (hF f))

include h

theorem insert {e e' : CacheEntry} (he : e.Alike F e') :
    Cache.Alike F (k.insert p e) (k'.insert p e') := by
  intro q
  rw [PathMap.get?_insert, PathMap.get?_insert]
  split
  · exact .some he
  · exact h q

theorem claim : Cache.Alike F (k.claim p).2 (k'.claim p).2 := by
  have hp := h p
  unfold Cache.claim
  generalize k.get? p = e at hp ⊢
  generalize k'.get? p = e' at hp ⊢
  cases hp with
  | none => exact h.insert p .inProgress
  | some he =>
    cases he with
    | inProgress => exact h
    | compiled _ => exact h

theorem finish {f g : Fragment} (hfg : F f g) : Cache.Alike F (k.finish p f) (k'.finish p g) :=
  h.insert p (.compiled hfg)

theorem abandon : Cache.Alike F (k.abandon p) (k'.abandon p) := by
  have hp := h p
  unfold Cache.abandon
  generalize k.get? p = e at hp ⊢
  generalize k'.get? p = e' at hp ⊢
  cases hp with
  | none => exact h
  | some he =>
    cases he with
    | compiled _ => exact h
    | inProgress =>
      intro q
      rw [PathMap.get?_erase, PathMap.get?_erase]
      split
      · exact .none
      · exact h q

end Cache.Alike

/-- The link together with the caches, between compiles that leave out as many components. -/
def Link.caching {c c' : Compiler} {W : Type} [Preorder W] (L : Link c c' W) : Link c c' W :=
  { L with
    Together := fun w s t =>
      L.Together w s t ∧ s.scope.cuts = t.scope.cuts ∧ s.cache.Alike L.Fragments t.cache
    log := fun l l' h => ⟨L.log l l' h.1, h.2⟩
    stamp := fun tag h hfg => by
      obtain ⟨w', hw, hst, ha⟩ := L.stamp tag h.1 hfg
      exact ⟨w', hw, ⟨hst, h.2⟩, ha⟩ }

/-- The link looks neither at the caches nor at what was left out. -/
structure Link.Scoped {c c' : Compiler} {W : Type} [Preorder W] (L : Link c c' W) : Prop where
  cache {w : W} {s t : Progress} (k k' : Cache) :
    L.Together w s t → L.Together w { s with cache := k } { t with cache := k' }
  cut {w : W} {s t : Progress} : L.Together w s t →
    L.Together w { s with scope := { s.scope with cuts := s.scope.cuts + 1 } }
      { t with scope := { t.scope with cuts := t.scope.cuts + 1 } }

namespace Compiler

open Compile Link

variable {c c' : Compiler} {W : Type} [Preorder W] {L : Link c c' W} {w : W}
  {enter enter' : List Path → Document → Compile Forest} {around : List Path} {p : Path}

/-- Whatever follows in lockstep can be compiled under a claim. -/
theorem compileClaimed_caching (hL : L.Scoped)
    (h : L.caching.Follows w (fun _ => L.Fragments) (c.compileFragment (enter (p :: around)) p)
      (c'.compileFragment (enter' (p :: around)) p)) :
    L.caching.Follows w (fun _ => L.Fragments) (c.compileClaimed (enter (p :: around)) p)
      (c'.compileClaimed (enter' (p :: around)) p) := by
  intro s t hst
  have h' := h s t hst
  have hrecached : ∀ (s' : Progress) (k : Cache), s'.Extends { s' with cache := k } :=
    fun s' _ => ⟨Nat.le_refl _, Nat.le_refl _, rfl⟩
  rw [outcome_compileClaimed, outcome_compileClaimed]
  generalize outcome (c.compileFragment (enter (p :: around)) p) s = o at h' ⊢
  generalize outcome (c'.compileFragment (enter' (p :: around)) p) t = o' at h' ⊢
  cases h' with
  | ok hw hst' ha =>
    dsimp only
    rw [hst'.2.1, hst.2.1]
    split
    · exact .ok hw ⟨hL.cache _ _ hst'.1, hst'.2.1, hst'.2.2.finish p ha⟩ ha
    · exact .ok hw ⟨hL.cache _ _ hst'.1, hst'.2.1, hst'.2.2.abandon p⟩ ha
  | error hw hst' => exact .error hw ⟨hL.cache _ _ hst'.1, hst'.2.1, hst'.2.2.abandon p⟩
  | lost hl =>
    obtain ⟨_ | _, s'⟩ := o
    all_goals obtain ⟨_ | _, t'⟩ := o'
    all_goals exact .lost (L.lost_extends hl (hrecached _ _) (hrecached _ _))
  | left he => exact .left he
  | right he => exact .right he

/-- Visits follow each other in lockstep if the compiles of components do. -/
theorem visits_caching (hL : L.Scoped) (hr : c.reuse = c'.reuse)
    (henter : ∀ around d, (enter around d).Extending)
    (henter' : ∀ around d, (enter' around d).Extending)
    (h : ∀ w p, L.caching.Follows w (fun _ => L.Fragments)
      (c.compileFragment (enter (p :: around)) p) (c'.compileFragment (enter' (p :: around)) p)) :
    L.caching.Visits (c.visit enter around) (c'.visit enter' around) := by
  refine ⟨fun w p s t hst => ?_, visit_extending henter around, visit_extending henter' around⟩
  by_cases hp : around.any (·.same p) = true
  · rw [outcome_visit_around hp, outcome_visit_around hp]
    refine .ok (le_refl w) ⟨L.log _ _ (hL.cut hst.1), congrArg (· + 1) hst.2.1, hst.2.2⟩ .none
  have hnot : around.any (·.same p) = false := by simpa using hp
  rcases hreuse : c'.reuse with _ | _
  · rw [outcome_visit_busy (hr.trans hreuse) hnot, outcome_visit_busy hreuse hnot]
    exact Agree.map_some (h w p s t hst)
  · rw [outcome_visit_claim (hr.trans hreuse) hnot, outcome_visit_claim hreuse hnot]
    have hentry := hst.2.2 p
    have hclaimed : L.caching.Together w { s with cache := (s.cache.claim p).2 }
        { t with cache := (t.cache.claim p).2 } :=
      ⟨hL.cache _ _ hst.1, hst.2.1, hst.2.2.claim p⟩
    generalize PathMap.get? s.cache p = e at hentry ⊢
    generalize PathMap.get? t.cache p = e' at hentry ⊢
    cases hentry with
    | none => exact Agree.map_some (compileClaimed_caching hL (h w p) _ _ hclaimed)
    | some he =>
      cases he with
      | inProgress => exact Agree.map_some (h w p s t hst)
      | compiled hfg => exact .ok (le_refl w) (L.caching.log _ _ hst) (.some hfg)

end Compiler

end StaticSite

import StaticSite.Proofs.Component.Serving

/-!
# What compiles ensure of their results

A step ensures a property of its result if it has it whenever the step starts with a cache that
fulfils a condition, which the step then keeps. A visit ensures what the compile of the component
does, as long as the cache serves nothing else (`Compiler.visit_ensures`).
-/

namespace StaticSite

open StaticSite.Html

namespace Compile

variable {α β : Type} {J : Cache → Prop} {A : α → Prop} {B : β → Prop}

/-- The step leaves behind a cache that `J` allows if it starts with one, and `A` holds of its
result. -/
def Ensures (J : Cache → Prop) (A : α → Prop) (x : Compile α) : Prop :=
  ∀ s, J s.cache → J (outcome x s).2.cache ∧ ∀ a, (outcome x s).1 = .ok a → A a

theorem Ensures.pure {a : α} (h : A a) : Ensures J A (pure a : Compile α) :=
  fun _ hs => ⟨hs, fun _ ha => by cases ha; exact h⟩

theorem Ensures.bind {x : Compile α} {f : α → Compile β} (hx : Ensures J A x)
    (hf : ∀ a, A a → Ensures J B (f a)) : Ensures J B (x >>= f) := by
  intro s hs
  obtain ⟨hJ, hA⟩ := hx s hs
  rw [outcome_bind]
  generalize outcome x s = o at hJ hA
  obtain ⟨e | a, t⟩ := o
  · exact ⟨hJ, fun _ h => by cases h⟩
  · exact hf a (hA a rfl) t hJ

theorem Ensures.imp {A' : α → Prop} {x : Compile α} (h : ∀ a, A a → A' a) (hx : Ensures J A x) :
    Ensures J A' x :=
  fun s hs => ⟨(hx s hs).1, fun a ha => h a ((hx s hs).2 a ha)⟩

theorem Ensures.report (e : Log.Entry) : Ensures J (fun _ => True) (report e) :=
  fun _ hs => ⟨hs, fun _ _ => trivial⟩

theorem Ensures.countInstance : Ensures J (fun _ => True) Compile.countInstance :=
  fun _ hs => ⟨hs, fun _ _ => trivial⟩

theorem Ensures.warn (o : Option Log.Entry) :
    Ensures J (fun _ => True) (o.forM Compile.report) := by
  rcases o with _ | w
  · exact .pure trivial
  · exact .report w

end Compile

namespace Compiler

open Compile

variable {c : Compiler} {J : Cache → Prop} {p : Path} {A : Fragment → Prop}

/-- What is done with the cache for a component keeps `J`, and what is served for it fulfils `A`, if
what is handed in does. -/
structure CacheKeeps (J : Cache → Prop) (p : Path) (A : Fragment → Prop) : Prop where
  claim {k : Cache} : J k → J (k.claim p).2
  abandon {k : Cache} : J k → J (k.abandon p)
  finish {k : Cache} {f : Fragment} : J k → A f → J (k.finish p f)
  served {k : Cache} {f : Fragment} : J k → k.get? p = some (.compiled f) → A f

theorem compileClaimed_ensures (hJ : CacheKeeps J p A) {enter : Document → Compile Forest}
    (h : Ensures J A (c.compileFragment enter p)) : Ensures J A (c.compileClaimed enter p) := by
  intro s hs
  obtain ⟨hJ', hA⟩ := h s hs
  rw [outcome_compileClaimed]
  generalize outcome (c.compileFragment enter p) s = o at hJ' hA ⊢
  obtain ⟨e | f, t⟩ := o
  · exact ⟨hJ.abandon hJ', fun _ h => by cases h⟩
  · refine ⟨?_, hA⟩
    dsimp only
    split
    · exact hJ.finish hJ' (hA f rfl)
    · exact hJ.abandon hJ'

/-- A visit makes what the compile of the component makes, or what it made before. -/
theorem visit_ensures (hJ : CacheKeeps J p A) {enter : List Path → Document → Compile Forest}
    {around : List Path} (h : Ensures J A (c.compileFragment (enter (p :: around)) p)) :
    Ensures J (fun o => ∀ f ∈ o, A f) (c.visit enter around p) := by
  intro s hs
  by_cases hp : around.any (·.same p) = true
  · rw [outcome_visit_around hp]
    exact ⟨hs, fun o ho f hf => by cases ho; cases hf⟩
  have hnot : around.any (·.same p) = false := by simpa using hp
  have hsome : ∀ {x : Compile Fragment}, Ensures J A x →
      Ensures J (fun o => ∀ f ∈ o, A f) (some <$> x) := by
    intro x hx
    rw [map_eq_pure_bind]
    refine hx.bind fun f hf => .pure fun g hg => ?_
    cases hg
    exact hf
  rcases hr : c.reuse with _ | _
  · rw [outcome_visit_busy hr hnot]
    exact hsome h s hs
  · rw [outcome_visit_claim hr hnot]
    rcases hk : s.cache.get? p with _ | _ | f
    · exact hsome (compileClaimed_ensures hJ h) _ (hJ.claim hs)
    · exact hsome h s hs
    · refine ⟨hs, fun o ho g hg => ?_⟩
      cases ho
      cases hg
      exact hJ.served hs hk

end Compiler

end StaticSite

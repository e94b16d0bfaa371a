import StaticSite.Proofs.Component.Unroll

/-!
# What the cache serves

The cache serves only components that unroll to what it serves (`Compiler.Serves`). Two facts keep
it so.

A compile in which no component is left out makes what the component unrolls to
(`Compiler.visit_uncut`), so whatever is handed in may be served everywhere.

Inside documents that are all settled later than a component, its compile leaves out nothing
(`Compiler.visit_settled`). Those documents may be any that the component can be met in, as a
component is settled later than all that it contains.
-/

namespace StaticSite

open StaticSite.Html

/-! ## Components in the cache -/

/-- The property holds of every component that the cache serves. -/
def Cache.Holds (P : Path → Fragment → Prop) (k : Cache) : Prop :=
  ∀ p f, PathMap.get? k p = some (.compiled f) → P p f

namespace Cache.Holds

variable {P : Path → Fragment → Prop} {k : Cache}

theorem empty : Cache.empty.Holds P := fun _ _ h => by cases h

theorem claim (h : k.Holds P) (p : Path) : (k.claim p).2.Holds P := by
  unfold Cache.claim
  split
  · exact h
  · exact h
  · intro q f hq
    rw [PathMap.get?_insert] at hq
    split at hq
    · cases hq
    · exact h q f hq

theorem abandon (h : k.Holds P) (p : Path) : (k.abandon p).Holds P := by
  unfold Cache.abandon
  split
  · intro q f hq
    rw [PathMap.get?_erase] at hq
    split at hq
    · cases hq
    · exact h q f hq
  · exact h

/-- What is handed in for a component is served for all paths of the same place. -/
theorem finish (h : k.Holds P) {p : Path} {f : Fragment} (hf : ∀ q, p.same q = true → P q f) :
    (k.finish p f).Holds P := by
  intro q g hq
  rw [Cache.finish, PathMap.get?_insert] at hq
  split at hq
  · rename_i hpq
    cases hq
    exact hf q hpq
  · exact h q g hq

end Cache.Holds

/-! ## Comparisons under a claim -/

namespace Link

open Compile

variable {c : Compiler} {reuse : Bool} {P : Pace} {R : Pairing}

/-- Handing in a component, or giving it up, does not end the comparison. -/
theorem Agree.recache {r : Except CompileError Fragment} {s : Progress} {k : Cache}
    {y : Except CompileError Fragment × Progress}
    (h : (counting c reuse P).Agree R (fun _ => Fragment.Alike) (r, s) y)
    (hk : P.Holds s y.2 → ¬P.Lost s y.2 → (∀ f, r = .ok f → ∃ g, y.1 = .ok g ∧ f.Alike g) →
      P.Holds { s with cache := k } y.2) :
    (counting c reuse P).Agree R (fun _ => Fragment.Alike) (r, { s with cache := k }) y := by
  have hext : s.Extends { s with cache := k } := ⟨Nat.le_refl _, Nat.le_refl _, rfl⟩
  by_cases hl : P.Lost s y.2
  · exact .lost (P.lost_extends hl hext (.refl _))
  cases h with
  | @ok _ f g _ _ hw hst ha =>
    refine .ok hw ⟨hst.1.mono (Nat.le_refl _) (Nat.le_refl _), ?_⟩ ha
    exact hk hst.2 hl fun f' hf => ⟨g, rfl, by cases hf; exact ha⟩
  | error hw hst =>
    refine .error hw ⟨hst.1.mono (Nat.le_refl _) (Nat.le_refl _), ?_⟩
    exact hk hst.2 hl fun _ hf => by cases hf
  | lost h => exact absurd h hl
  | left he => exact .left he
  | right he => exact .right he

end Link

namespace Compiler

open Compile Link

variable {c : Compiler} {reuse : Bool} {P : Pace} {R : Pairing}

/-- A visit follows the compile of a fragment if what is served is alike, if the compile of the left
fragment follows, and if what is handed in may be. -/
theorem visit_agree {enter : List Path → Document → Compile Forest} {around : List Path} {p : Path}
    (hp : around.any (·.same p) = false) {y : Compile Fragment} {s t : Progress}
    (hst : (counting c reuse P).Together R s t)
    (served : ∀ f log, s.cache.get? p = some (.compiled f) → reuse = true →
      (counting c reuse P).Agree R (fun _ => Fragment.Alike) (.ok f, { s with log }) (outcome y t))
    (made : ∀ s', s'.scope = s.scope → (counting c reuse P).Together R s' t →
      (counting c reuse P).Agree R (fun _ => Fragment.Alike)
        (outcome ((c.reusing reuse).compileFragment (enter (p :: around)) p) s') (outcome y t))
    (handed : ∀ {f g s' t'}, P.Holds s' t' → ¬P.Lost s' t' → f.Alike g →
      outcome y t = (.ok g, t') → s'.scope.cuts = s.scope.cuts →
      P.Holds { s' with cache := s'.cache.finish p f } t') :
    (counting c reuse P).Agree R (fun _ => Option.Rel Fragment.Alike)
      (outcome ((c.reusing reuse).visit enter around p) s) (outcome (some <$> y) t) := by
  cases reuse with
  | false =>
    rw [outcome_visit_busy rfl hp]
    exact (made s rfl hst).map_some
  | true =>
    rw [outcome_visit_claim rfl hp]
    rcases hk : s.cache.get? p with _ | _ | f
    · have h := made { s with cache := (s.cache.claim p).2 } rfl
        ⟨hst.1.mono (Nat.le_refl _) (Nat.le_refl _), P.claim p hst.2⟩
      refine Agree.map_some ?_
      rw [outcome_compileClaimed]
      generalize outcome (compileFragment _ _ p) _ = o at h ⊢
      obtain ⟨e | f, s'⟩ := o
      · exact h.recache fun hs _ _ => P.abandon p hs
      · dsimp only
        split
        · rename_i hcuts
          refine h.recache fun hs hl hf => ?_
          obtain ⟨g, hg, hfg⟩ := hf f rfl
          exact handed hs hl hfg (Prod.ext hg rfl) hcuts
        · exact h.recache fun hs _ _ => P.abandon p hs
    · exact (made s rfl hst).map_some
    · exact Agree.map_some (x := pure f) (served f _ hk rfl)

/-- The compile of a fragment, compared with what it unrolls to from any progress, if it can be
compared with how it is unrolled. -/
theorem retrieve_agree {Q : Pace} {enter : Document → Compile Forest} {p : Path}
    {depth depth' : Nat} {s t : Progress} (hR : R.Fits s t) (hs : Q.Holds s {})
    (ext : ∀ d, (enter d).Extending)
    (he : ∀ d, (counting c reuse Q).Follows (fun _ _ => False) Pairing.Forests (enter d)
      (c.expandKnown (c.unroll depth) d))
    (hp : c.unroll depth' p = c.unroll (depth + 1) p)
    (lost : ∀ s' t', Q.Lost s' t' → P.Lost s' (advanced t'.scope.instances t))
    (right : Q.excuseRight → P.excuseRight)
    (holds : ∀ s' t', Q.Holds s' t' → P.Holds s' (advanced t'.scope.instances t)) :
    (counting c reuse P).Agree R (fun _ => Fragment.Alike)
      (outcome ((c.reusing reuse).compileFragment enter p) s)
      (outcome (retrieve (c.unroll depth') p) t) := by
  have hext : s.Extends (outcome ((c.reusing reuse).compileFragment enter p) s).2 := by
    refine Extending.bind (.report _) (fun _ => (Extending.except _).bind fun d => ?_) s
    exact (ext d).bind fun _ => .pure _
  have h := compileFragment_counting (p := p) (fun d _ => he d) s {} ⟨Pairing.fits_empty _ _, hs⟩
  rw [outcome_retrieve, hp, unroll]
  generalize outcome ((c.reusing reuse).compileFragment enter p) s = o at h hext ⊢
  generalize outcome (c.compileFragment _ p) {} = o' at h ⊢
  have hfits : ∀ n, R.Fits o.2 (advanced n t) :=
    fun n => hR.mono hext.instances_le (Nat.le_add_right ..)
  cases h with
  | ok _ hst ha => exact .ok (le_refl R) ⟨hfits _, holds _ _ hst.2⟩ ha
  | error _ hst => exact .error (le_refl R) ⟨hfits _, holds _ _ hst.2⟩
  | lost hl => exact .lost (lost _ _ hl)
  | left he => exact .left he
  | right he => exact .right (right he)

end Compiler

/-! ## Compiles in which nothing is left out -/

/-- The left compile started from `b` instances and `k` components left out, and is lost as soon as
another one is left out. -/
def Pace.uncut (b k : Nat) : Pace where
  Holds s t := s.scope.instances = b + t.scope.instances ∧ k ≤ s.scope.cuts
  Lost s _ := UInt32.size ≤ s.scope.instances ∨ k < s.scope.cuts
  excuseRight := False
  log _ _ h := h
  counted h := ⟨congrArg (· + 1) h.1, h.2⟩
  claim _ h := h
  abandon _ h := h
  lost_extends h hs _ := h.imp (Nat.le_trans · hs.instances_le) (Nat.lt_of_lt_of_le · hs.cuts_le)
  bounded {s t} h hl := by
    rw [not_or] at hl
    exact ⟨by omega, by omega⟩

namespace Compiler

open Compile Link

variable {c : Compiler}

theorem visit_uncut_of_enter {depth : Nat}
    (h : ∀ around d b k R, (counting c false (.uncut b k)).Follows R Pairing.Forests
      ((c.reusing false).expandDocument depth around d) (c.expandKnown (c.unroll depth) d))
    (around : List Path) (b k : Nat) :
    (counting c false (.uncut b k)).Visits
      ((c.reusing false).visit ((c.reusing false).expandDocument depth) around)
      (revisit (c.unroll (depth + 1))) := by
  refine ⟨fun R p s t hst => ?_, visit_extending (expandDocument_extending depth) around,
    revisit_extending _⟩
  by_cases hp : around.any (·.same p) = true
  · rw [outcome_visit_around hp]
    exact .lost (.inr (Nat.lt_succ_of_le hst.2.2))
  · refine visit_agree (by simpa using hp) hst (fun _ _ _ h => by cases h) (fun s' _ hst' => ?_)
      fun hst' _ _ _ _ => hst'
    refine retrieve_agree (Q := .uncut s'.scope.instances k) hst'.1 ⟨rfl, hst'.2.2⟩
      (expandDocument_extending depth _) (fun d => h _ d _ _ _) rfl (fun _ _ hl => hl) (fun h => h)
      fun s₁ t₁ h₁ => ⟨?_, h₁.2⟩
    have hb : s'.scope.instances = b + t.scope.instances := hst'.2.1
    have hb₁ : s₁.scope.instances = s'.scope.instances + t₁.scope.instances := h₁.1
    show s₁.scope.instances = b + (t.scope.instances + t₁.scope.instances)
    omega

theorem expandDocument_uncut (depth : Nat) (around : List Path) (d : Document) (b k : Nat)
    (R : Pairing) :
    (counting c false (.uncut b k)).Follows R Pairing.Forests
      ((c.reusing false).expandDocument depth around d) (c.expandKnown (c.unroll depth) d) := by
  induction depth generalizing around d b k R with
  | zero => exact fun _ _ _ => .left trivial
  | succ depth ih =>
    exact expandSource_follows (visit_uncut_of_enter ih around b k) (fun _ => rfl) _ _

/-- As long as nothing is left out, a visit makes what the component unrolls to. -/
theorem visit_uncut (depth : Nat) (around : List Path) (b k : Nat) :
    (counting c false (.uncut b k)).Visits
      ((c.reusing false).visit ((c.reusing false).expandDocument depth) around)
      (revisit (c.unroll (depth + 1))) :=
  visit_uncut_of_enter (expandDocument_uncut depth) around b k

/-! ## Settled components -/

/-- The cache serves only what components unroll to. -/
def Serves (c : Compiler) (k : Cache) : Prop :=
  ∀ p f, PathMap.get? k p = some (.compiled f) →
    ∃ depth g, (c.unroll depth p).1 = .ok g ∧ f.Alike g

theorem serves_empty : c.Serves Cache.empty := Cache.Holds.empty

theorem Serves.claim {k : Cache} (h : c.Serves k) (p : Path) : c.Serves (k.claim p).2 :=
  Cache.Holds.claim h p

theorem Serves.abandon {k : Cache} (h : c.Serves k) (p : Path) : c.Serves (k.abandon p) :=
  Cache.Holds.abandon h p

theorem Serves.finish {files : PathMap (Except String String)} (hc : c.sources = .ofFiles files)
    {k : Cache} (h : c.Serves k) {p : Path} {f g : Fragment} {depth : Nat}
    (hg : (c.unroll depth p).1 = .ok g) (hfg : f.Alike g) : c.Serves (k.finish p f) := by
  refine Cache.Holds.finish h fun q hpq => ?_
  obtain ⟨g', hg', hgg'⟩ := exists_unroll_of_same hc hpq hg
  exact ⟨depth, g', hg', hfg.trans hgg'⟩

/-- What a compile keeps that started from `b` instances and `k` components left out, compared with
one that unrolls the same components. Served components take no instances to make. -/
structure Keeps (c : Compiler) (reuse : Bool) (b k : Nat) (s t : Progress) : Prop where
  serves : c.Serves s.cache
  cuts_eq : s.scope.cuts = k
  instances_le : s.scope.instances ≤ b + t.scope.instances
  instances_eq : reuse = false → s.scope.instances = b + t.scope.instances

end Compiler

/-- The left compile started from `b` instances and `k` components left out, and leaves out no other
one. -/
def Pace.settled (c : Compiler) (reuse : Bool) (b k : Nat) : Pace where
  Holds := c.Keeps reuse b k
  Lost s t :=
    UInt32.size ≤ b + t.scope.instances ∧ (reuse = false → UInt32.size ≤ s.scope.instances)
  excuseRight := True
  log _ _ h := ⟨h.serves, h.cuts_eq, h.instances_le, h.instances_eq⟩
  counted h := ⟨h.serves, h.cuts_eq, Nat.succ_le_succ h.instances_le,
    fun hr => congrArg (· + 1) (h.instances_eq hr)⟩
  claim p h := ⟨h.serves.claim p, h.cuts_eq, h.instances_le, h.instances_eq⟩
  abandon p h := ⟨h.serves.abandon p, h.cuts_eq, h.instances_le, h.instances_eq⟩
  lost_extends h hs ht :=
    ⟨Nat.le_trans h.1 (Nat.add_le_add_left ht.instances_le b),
      fun hr => Nat.le_trans (h.2 hr) hs.instances_le⟩
  bounded {s t} h hl := by
    have hle := h.instances_le
    have ht : b + t.scope.instances < UInt32.size := by
      refine Nat.lt_of_not_le fun ht => hl ⟨ht, fun hr => ?_⟩
      rw [h.instances_eq hr]
      exact ht
    exact ⟨by omega, by omega⟩

namespace Compiler

open Compile Link

variable {c : Compiler}

/-- A settled component is settled at a first depth. -/
theorem Settled.exists_first {n : Nat} {p : Path} (h : c.Settled n p) :
    ∃ m < n, ¬c.Settled m p ∧ c.unroll n p = c.unroll (m + 1) p := by
  induction n with
  | zero => exact absurd h (not_settled_zero p)
  | succ n ih =>
    by_cases hn : c.Settled n p
    · obtain ⟨m, hm, hp, hu⟩ := ih hn
      exact ⟨m, Nat.lt_succ_of_lt hm, hp, (unroll_succ hn).trans hu⟩
    · exact ⟨n, Nat.lt_succ_self n, hn, rfl⟩

section Settled

variable {n : Nat} {p : Path} {reuse : Bool} {b k : Nat} {R : Pairing} {s t : Progress}

/-- What the cache serves for a settled component is what the component unrolls to. -/
theorem served_settled (hp : c.Settled n p)
    (hst : (counting c reuse (.settled c reuse b k)).Together R s t)
    {f : Fragment} (log : List Log.Entry) (hk : s.cache.get? p = some (.compiled f))
    (hr : reuse = true) :
    (counting c reuse (.settled c reuse b k)).Agree R (fun _ => Fragment.Alike)
      (.ok f, { s with log }) (outcome (retrieve (c.unroll n) p) t) := by
  obtain ⟨depth, g, hg, hfg⟩ := hst.2.serves p f hk
  rw [outcome_retrieve, hp.unique (settled_of_ok hg), hg]
  refine .ok (le_refl R) ⟨hst.1.mono (Nat.le_refl _) (Nat.le_add_right ..), ?_⟩ hfg
  refine ⟨hst.2.serves, hst.2.cuts_eq, ?_, fun h => ?_⟩
  · exact Nat.le_trans hst.2.instances_le (Nat.add_le_add_left (Nat.le_add_right ..) b)
  · rw [hr] at h
    cases h

/-- What is made of a settled component is what the component unrolls to, if its document expands to
what its components unroll to. -/
theorem made_settled (hst : (counting c reuse (.settled c reuse b k)).Together R s t) {m : Nat}
    (hunroll : c.unroll n p = c.unroll (m + 1) p) {enter : Document → Compile Forest}
    (hext : ∀ d, (enter d).Extending)
    (henter : ∀ d, (counting c reuse (.settled c reuse s.scope.instances k)).Follows
      (fun _ _ => False) Pairing.Forests (enter d) (c.expandKnown (c.unroll m) d)) :
    (counting c reuse (.settled c reuse b k)).Agree R (fun _ => Fragment.Alike)
      (outcome ((c.reusing reuse).compileFragment enter p) s)
      (outcome (retrieve (c.unroll n) p) t) := by
  have hb : s.scope.instances ≤ b + t.scope.instances := hst.2.instances_le
  refine retrieve_agree hst.1 ?_ hext henter hunroll ?_ (fun h => h) ?_
  · exact ⟨hst.2.serves, hst.2.cuts_eq, Nat.le_refl _, fun _ => rfl⟩
  · intro s₁ t₁ hl
    refine ⟨Nat.le_trans hl.1 ?_, hl.2⟩
    show _ ≤ b + (t.scope.instances + t₁.scope.instances)
    omega
  · intro s₁ t₁ h₁
    refine ⟨h₁.serves, h₁.cuts_eq, ?_, fun hr => ?_⟩
    · have := h₁.instances_le
      show _ ≤ b + (t.scope.instances + t₁.scope.instances)
      omega
    · have := h₁.instances_eq hr
      have := hst.2.instances_eq hr
      show _ = b + (t.scope.instances + t₁.scope.instances)
      omega

end Settled

/-- Inside documents that are not settled at a depth, a visit makes what the component unrolls to at
that depth, and leaves out nothing, if the component is settled there. -/
theorem visit_settled {files : PathMap (Except String String)} (hc : c.sources = .ofFiles files)
    (n : Nat) : ∀ (depth : Nat) {around : List Path} (reuse : Bool) (b k : Nat),
      (∀ q ∈ around, ¬c.Settled n q) →
        (counting c reuse (.settled c reuse b k)).Visits
          ((c.reusing reuse).visit ((c.reusing reuse).expandDocument depth) around)
          (revisit (c.unroll n)) := by
  induction n using Nat.strongRecOn with
  | ind n ih =>
  intro depth around reuse b k haround
  refine ⟨fun R p s t hst => ?_, visit_extending (expandDocument_extending depth) around,
    revisit_extending _⟩
  by_cases hp : c.Settled n p
  · obtain ⟨m, hm, hfirst, hunroll⟩ := hp.exists_first
    have hnot : around.any (·.same p) = false := by
      rw [List.any_eq_false]
      intro q hq hqp
      exact haround q hq (hp.congr hc ((Path.same_comm p q).trans hqp))
    -- At `m` neither the component nor the documents around it are settled, so that what it
    -- contains can be compared with what that unrolls to there.
    have haround' : ∀ q ∈ p :: around, ¬c.Settled m q := by
      refine List.forall_mem_cons.2 ⟨hfirst, fun q hq hs => haround q hq (hs.mono ?_)⟩
      exact Nat.le_of_lt hm
    have henter : ∀ a d, (counting c reuse (.settled c reuse a k)).Follows (fun _ _ => False)
        Pairing.Forests ((c.reusing reuse).expandDocument depth (p :: around) d)
        (c.expandKnown (c.unroll m) d) := by
      intro a d
      rcases depth with _ | depth
      · exact fun _ _ _ => .left trivial
      · exact expandSource_follows (ih m hm depth reuse a k haround') (fun _ => rfl) _ _
    refine visit_agree hnot hst (fun f log hk hr => served_settled hp hst log hk hr) ?_ ?_
    · intro s' _ hst'
      exact made_settled hst' hunroll (expandDocument_extending depth _) (henter _)
    · intro f g s' t' hst' _ hfg hg _
      rw [outcome_retrieve] at hg
      exact ⟨hst'.serves.finish hc (congrArg Prod.fst hg) hfg, hst'.cuts_eq, hst'.instances_le,
        hst'.instances_eq⟩
  · obtain ⟨q, hq⟩ := not_settled_iff.1 hp
    rw [revisit, outcome_map, outcome_retrieve, hq]
    exact .right trivial

theorem expandDocument_settled {files : PathMap (Except String String)}
    (hc : c.sources = .ofFiles files) {n : Nat} (depth : Nat) {around : List Path} (reuse : Bool)
    (b k : Nat) (haround : ∀ q ∈ around, ¬c.Settled n q) (d : Document) (R : Pairing) :
    (counting c reuse (.settled c reuse b k)).Follows R Pairing.Forests
      ((c.reusing reuse).expandDocument depth around d) (c.expandKnown (c.unroll n) d) := by
  rcases depth with _ | depth
  · exact fun _ _ _ => .left trivial
  · exact expandSource_follows (visit_settled hc n depth reuse b k haround) (fun _ => rfl) _ _

end Compiler

end StaticSite

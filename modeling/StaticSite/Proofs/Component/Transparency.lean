import StaticSite.Proofs.Component.Nesting
import StaticSite.Proofs.Component.Serving

/-!
# The cache is transparent

Serving components from the cache changes no page: pages that share a cache get the same answers as
pages that are compiled alone, without one.

A compile that may be served is run side by side with one that is not (`Compiler.visit_shared`). A
settled component is compared through what it unrolls to. Other components contain themselves, and
each compile of them leaves something out, so they are never handed in, and the compiles go on side
by side.
-/

namespace StaticSite

open StaticSite.Html

/-- Both compiles left out as many components, the left one spliced in no more instances, and its
cache serves only what components unroll to. -/
structure Compiler.Shares (c : Compiler) (s t : Progress) : Prop where
  serves : c.Serves s.cache
  serves_right : c.Serves t.cache
  cuts_eq : s.scope.cuts = t.scope.cuts
  instances_le : s.scope.instances ≤ t.scope.instances

/-- The left compile may be served, and the right one is not. -/
def Pace.shared (c : Compiler) : Pace where
  Holds := c.Shares
  Lost _ t := UInt32.size ≤ t.scope.instances
  excuseRight := True
  log _ _ h := ⟨h.serves, h.serves_right, h.cuts_eq, h.instances_le⟩
  counted h := ⟨h.serves, h.serves_right, h.cuts_eq, Nat.succ_le_succ h.instances_le⟩
  claim p h := ⟨h.serves.claim p, h.serves_right, h.cuts_eq, h.instances_le⟩
  abandon p h := ⟨h.serves.abandon p, h.serves_right, h.cuts_eq, h.instances_le⟩
  lost_extends h _ ht := Nat.le_trans h ht.instances_le
  bounded h hl :=
    ⟨Nat.lt_of_le_of_lt h.instances_le (Nat.lt_of_not_le hl), Nat.lt_of_not_le hl⟩

namespace Compiler

open Compile Link

variable {c : Compiler} {files : PathMap (Except String String)}

/-- The component contains itself, as far as it is compiled at all. -/
def Unsettled (c : Compiler) (p : Path) : Prop := ∀ n, ¬c.Settled n p

/-- Two compiles that both make what a settled component unrolls to agree with each other. -/
theorem agree_of_settled {reuse : Bool} {R S T : Pairing} {s t : Progress} (hR : R.Fits s t)
    (hst : c.Shares s t) {n : Nat} {r : Except CompileError (Option Fragment)}
    (hr : ∀ q, r ≠ .error (.tooDeep q)) {o o' : Except CompileError (Option Fragment) × Progress}
    (ho : s.Extends o.2) (ho' : t.Extends o'.2)
    (hl : (counting c reuse (.settled c reuse s.scope.instances s.scope.cuts)).Agree S
      (fun _ => Option.Rel Fragment.Alike) o (r, advanced n {}))
    (hl' : (counting c false (.settled c false t.scope.instances t.scope.cuts)).Agree T
      (fun _ => Option.Rel Fragment.Alike) o' (r, advanced n {})) :
    (counting c reuse (.shared c)).Agree R (fun _ => Option.Rel Fragment.Alike) o o' := by
  have hfits : R.Fits o.2 o'.2 := hR.mono ho.instances_le ho'.instances_le
  have hn : (advanced n {}).scope.instances = n := Nat.zero_add n
  -- The right compile takes as many instances as the component does, the left one no more.
  have hshares : ∀ {s' t' : Progress},
      c.Keeps reuse s.scope.instances s.scope.cuts s' (advanced n {}) →
      c.Keeps false t.scope.instances t.scope.cuts t' (advanced n {}) → c.Shares s' t' := by
    intro s' t' hk hk'
    refine ⟨hk.serves, hk'.serves, ?_, ?_⟩
    · rw [hk.cuts_eq, hk'.cuts_eq, hst.cuts_eq]
    · have := hk.instances_le
      have := hk'.instances_eq rfl
      have := hst.instances_le
      omega
  have hlost : ∀ {t' : Progress},
      UInt32.size ≤ s.scope.instances + (advanced n {}).scope.instances →
      c.Keeps false t.scope.instances t.scope.cuts t' (advanced n {}) →
      UInt32.size ≤ t'.scope.instances := by
    intro t' h hk'
    have := hk'.instances_eq rfl
    have := hst.instances_le
    omega
  cases hl' with
  | ok _ hst' ha' =>
    cases hl with
    | ok _ hst ha =>
      refine .ok (le_refl R) ⟨hfits, hshares hst.2 hst'.2⟩ ?_
      cases ha' with
      | none =>
        cases ha with
        | none => exact .none
      | some hg' =>
        cases ha with
        | some hg => exact .some (hg.trans hg'.symm)
    | lost h => exact .lost (hlost h.1 hst'.2)
    | left _ => exact .left trivial
  | error _ hst' =>
    cases hl with
    | error _ hst => exact .error (le_refl R) ⟨hfits, hshares hst.2 hst'.2⟩
    | lost h => exact .lost (hlost h.1 hst'.2)
    | left _ => exact .left trivial
    | right _ => exact absurd rfl (hr _)
  | lost h => exact .lost (h.2 rfl)
  | left _ => exact .right trivial
  | right _ => exact absurd rfl (hr _)

theorem reusing_eq {reuse : Bool} (h : c.reuse = reuse) : c.reusing reuse = c := by
  rw [← h]
  rfl

theorem visit_settled_shared (hc : c.sources = .ofFiles files) (hr : c.reuse = false)
    (reuse : Bool) (depth : Nat) {around : List Path} {n : Nat}
    (haround : ∀ q ∈ around, ¬c.Settled n q) {p : Path} (hp : c.Settled n p) (R : Pairing) :
    (counting c reuse (.shared c)).Follows R (fun _ => Option.Rel Fragment.Alike)
      ((c.reusing reuse).visit ((c.reusing reuse).expandDocument depth) around p)
      (c.visit (c.expandDocument depth) around p) := by
  intro s t hst
  have hl := (visit_settled hc n depth reuse s.scope.instances s.scope.cuts haround).follows
    (fun _ _ => False) p s {}
    ⟨Pairing.fits_empty _ _, hst.2.serves, rfl, Nat.le_refl _, fun _ => rfl⟩
  have hl' := (visit_settled hc n depth false t.scope.instances t.scope.cuts haround).follows
    (fun _ _ => False) p t {}
    ⟨Pairing.fits_empty _ _, hst.2.serves_right, rfl, Nat.le_refl _, fun _ => rfl⟩
  rw [revisit, outcome_map, outcome_retrieve] at hl hl'
  have hsettled : ∀ q, (c.unroll n p).1.map some ≠ .error (.tooDeep q) := by
    intro q hq
    refine hp q ?_
    generalize (c.unroll n p).1 = r at hq ⊢
    rcases r with e | f
    · cases hq
      rfl
    · cases hq
  have := agree_of_settled hst.1 hst.2 hsettled
    (visit_extending (expandDocument_extending depth) around p s)
    (visit_extending (expandDocument_extending depth) around p t) hl hl'
  rwa [reusing_eq hr] at this

/-- A component that contains itself is never handed in: a compile of it that leaves out nothing
would make what it unrolls to. -/
theorem cuts_ne_of_unsettled {p : Path} (hp : c.Unsettled p) {depth : Nat} {around : List Path}
    {t t' : Progress} {f : Option Fragment}
    (h : outcome ((c.reusing false).visit ((c.reusing false).expandDocument depth) around p) t =
      (.ok f, t')) (hlost : t'.scope.instances < UInt32.size) :
    t'.scope.cuts ≠ t.scope.cuts := by
  intro hcuts
  have hu := (visit_uncut (c := c) depth around t.scope.instances t.scope.cuts).follows
    (fun _ _ => False) p t {} ⟨Pairing.fits_empty _ _, rfl, Nat.le_refl _⟩
  obtain ⟨q, hq⟩ := not_settled_iff.1 (hp (depth + 1))
  rw [h, revisit, outcome_map, outcome_retrieve, hq] at hu
  cases hu with
  | lost hl =>
    rcases hl with hl | hl
    · exact absurd hl (Nat.not_le_of_lt hlost)
    · exact absurd hcuts (Nat.ne_of_gt hl)
  | right he => exact he

theorem visit_unsettled_shared (hr : c.reuse = false) (reuse : Bool) {depth : Nat}
    (henter : ∀ around d R, (∀ q ∈ around, c.Unsettled q) →
      (counting c reuse (.shared c)).Follows R Pairing.Forests
        ((c.reusing reuse).expandDocument depth around d) (c.expandDocument depth around d))
    {around : List Path} (haround : ∀ q ∈ around, c.Unsettled q) {p : Path} (hp : c.Unsettled p)
    (R : Pairing) :
    (counting c reuse (.shared c)).Follows R (fun _ => Option.Rel Fragment.Alike)
      ((c.reusing reuse).visit ((c.reusing reuse).expandDocument depth) around p)
      (c.visit (c.expandDocument depth) around p) := by
  intro s t hst
  by_cases hmem : around.any (·.same p) = true
  · rw [outcome_visit_around hmem, outcome_visit_around hmem]
    refine .ok (le_refl R) ⟨?_, ?_⟩ .none
    · exact hst.1.mono (Nat.le_refl _) (Nat.le_refl _)
    · exact ⟨hst.2.serves, hst.2.serves_right, congrArg (· + 1) hst.2.cuts_eq, hst.2.instances_le⟩
  · have hnot : around.any (·.same p) = false := by simpa using hmem
    have hvisit : outcome (c.visit (c.expandDocument depth) around p) t =
        outcome (some <$> c.compileFragment (c.expandDocument depth (p :: around)) p) t :=
      outcome_visit_busy hr hnot t
    rw [hvisit]
    refine visit_agree hnot hst ?_ ?_ ?_
    · intro f log hk _
      obtain ⟨n, g, hg, -⟩ := hst.2.serves p f hk
      exact absurd (settled_of_ok hg) (hp n)
    · intro s' _ hst'
      refine compileFragment_counting (fun d _ => henter _ d R ?_) s' t hst'
      exact List.forall_mem_cons.2 ⟨hp, haround⟩
    · intro f g s' t' hst' hl _ hg hcuts
      rw [outcome_map, hg] at hvisit
      rw [← reusing_eq hr] at hvisit
      refine absurd ?_ (cuts_ne_of_unsettled hp hvisit (Nat.lt_of_not_le hl))
      rw [← hst'.cuts_eq, hcuts, hst.2.cuts_eq]

theorem visit_shared_of_enter (hc : c.sources = .ofFiles files) (hr : c.reuse = false)
    (reuse : Bool) {depth : Nat}
    (henter : ∀ around d R, (∀ q ∈ around, c.Unsettled q) →
      (counting c reuse (.shared c)).Follows R Pairing.Forests
        ((c.reusing reuse).expandDocument depth around d) (c.expandDocument depth around d))
    {around : List Path} (haround : ∀ q ∈ around, c.Unsettled q) :
    (counting c reuse (.shared c)).Visits
      ((c.reusing reuse).visit ((c.reusing reuse).expandDocument depth) around)
      (c.visit (c.expandDocument depth) around) := by
  refine ⟨fun R p => ?_, visit_extending (expandDocument_extending depth) around,
    visit_extending (expandDocument_extending depth) around⟩
  by_cases hp : c.Unsettled p
  · exact visit_unsettled_shared hr reuse henter haround hp R
  · obtain ⟨n, hn⟩ := not_forall_not.1 hp
    exact visit_settled_shared hc hr reuse depth (fun q hq => haround q hq n) hn R

/-- Inside documents that contain themselves, compiles that may be served agree with those that are
not. -/
theorem expandDocument_shared (hc : c.sources = .ofFiles files) (hr : c.reuse = false)
    (reuse : Bool) (depth : Nat) : ∀ (around : List Path) (d : Document) (R : Pairing),
      (∀ q ∈ around, c.Unsettled q) →
        (counting c reuse (.shared c)).Follows R Pairing.Forests
          ((c.reusing reuse).expandDocument depth around d) (c.expandDocument depth around d) := by
  induction depth with
  | zero => exact fun _ _ _ _ _ _ _ => .left trivial
  | succ depth ih =>
    intro around d R haround
    exact expandSource_follows (visit_shared_of_enter hc hr reuse ih haround) (fun _ => rfl) _ _

end Compiler

end StaticSite

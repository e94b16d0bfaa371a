import StaticSite.Component.Compile

/-!
# Outcomes of compiles

The outcome of a step is its result together with what it leaves behind. Each primitive step has one
equation that says what its outcome is, and `outcome_bind` puts steps together, so later proofs do
not look into the monad.

What visits keep is kept by an expansion, which fails only as a visit does (`Compiler.expand_safe`).
In particular counters never go back, and a document leaves the scripts of the page alone
(`Compiler.expandDocument_extending`).
-/

namespace StaticSite

open StaticSite.Html

/-- The nodes of a fragment, as an instance has them before its slots are filled. -/
def Fragment.spliced (f : Fragment) (tag : Tag) (number : UInt32) : Forest :=
  applyProperties f.metadata tag (stampInstance number f.nodes)

namespace Compile

variable {α β : Type}

/-- The result of a step that starts from `s`, and what the step leaves behind. -/
def outcome (step : Compile α) (s : Progress) : Except CompileError α × Progress := step.run s

@[simp] theorem outcome_pure (a : α) (s : Progress) : outcome (pure a) s = (.ok a, s) := rfl

@[simp] theorem outcome_throw (e : CompileError) (s : Progress) :
    outcome (throw e : Compile α) s = (.error e, s) := rfl

@[simp] theorem outcome_except (x : Except CompileError α) (s : Progress) :
    outcome (liftM x) s = (x, s) := by
  cases x <;> rfl

theorem outcome_bind (x : Compile α) (f : α → Compile β) (s : Progress) :
    outcome (x >>= f) s =
      match outcome x s with
      | (.ok a, t) => outcome (f a) t
      | (.error e, t) => (.error e, t) := by
  show (ExceptT.bindCont f (x s).1) (x s).2 = _
  unfold outcome ExceptT.run
  rcases x s with ⟨_ | _, _⟩ <;> rfl

@[simp] theorem outcome_map (f : α → β) (x : Compile α) (s : Progress) :
    outcome (f <$> x) s = ((outcome x s).1.map f, (outcome x s).2) := by
  rw [map_eq_pure_bind, outcome_bind]
  rcases outcome x s with ⟨_ | _, _⟩ <;> rfl

@[simp] theorem outcome_attempt (x : Compile α) (s : Progress) :
    outcome (attempt x) s = (.ok (outcome x s).1, (outcome x s).2) := rfl

@[simp] theorem outcome_report (e : Log.Entry) (s : Progress) :
    outcome (report e) s = (.ok (), { s with log := s.log ++ [e] }) := rfl

@[simp] theorem outcome_modifyCache (f : Cache → Cache) (s : Progress) :
    outcome (modifyCache f) s = (.ok (), { s with cache := f s.cache }) := rfl

@[simp] theorem outcome_claim (p : Path) (s : Progress) :
    outcome (claim p) s = (.ok (s.cache.claim p).1, { s with cache := (s.cache.claim p).2 }) := rfl

/-- What is left behind when an instance was counted. -/
def counted (s : Progress) : Progress :=
  { s with scope := { s.scope with instances := s.scope.instances + 1 } }

@[simp] theorem outcome_countInstance (s : Progress) :
    outcome countInstance s = (.ok (UInt32.ofNat (s.scope.instances + 1)), counted s) := rfl

@[simp] theorem outcome_countCut (s : Progress) :
    outcome countCut s = (.ok (), { s with scope := { s.scope with cuts := s.scope.cuts + 1 } }) :=
  rfl

@[simp] theorem outcome_cuts (s : Progress) : outcome cuts s = (.ok s.scope.cuts, s) := rfl

@[simp] theorem outcome_detail (source message : String) (s : Progress) :
    outcome (detail source message) s =
      (.ok (), { s with log := s.log ++ [{ source, message, detail := true }] }) := rfl

@[simp] theorem outcome_retainFirst (ns : Forest) (s : Progress) :
    outcome (retainFirst ns) s =
      (.ok (Html.retainFirst s.scope.scripts ns).1,
        { s with scope := { s.scope with scripts := (Html.retainFirst s.scope.scripts ns).2 } }) :=
  rfl

/-! ## What every step keeps -/

/-- A step keeps `I`, and fails only with errors of `E`. -/
def Safe (I : Progress → Prop) (E : CompileError → Prop) (x : Compile α) : Prop :=
  ∀ s, I s → I (outcome x s).2 ∧ ∀ e, (outcome x s).1 = .error e → E e

/-- `I` does not look at the log, and counting instances does not end it. -/
structure Steady (I : Progress → Prop) : Prop where
  log : ∀ {s : Progress} (l : List Log.Entry), I s → I { s with log := l }
  counted : ∀ {s : Progress}, I s → I (counted s)

/-- `I` does not look at the cache either, and leaving out components does not end it. -/
structure Lasting (I : Progress → Prop) : Prop extends Steady I where
  cache : ∀ {s : Progress} (k : Cache), I s → I { s with cache := k }
  cut : ∀ {s : Progress}, I s → I { s with scope := { s.scope with cuts := s.scope.cuts + 1 } }

variable {I : Progress → Prop} {E : CompileError → Prop}

theorem Safe.pure (a : α) : Safe I E (pure a : Compile α) :=
  fun _ hs => ⟨hs, fun _ h => by cases h⟩

theorem Safe.bind {x : Compile α} {f : α → Compile β} (hx : Safe I E x)
    (hf : ∀ a, Safe I E (f a)) : Safe I E (x >>= f) := by
  intro s hs
  obtain ⟨hI, hE⟩ := hx s hs
  rw [outcome_bind]
  rcases h : outcome x s with ⟨_ | a, t⟩
  · rw [h] at hI hE
    exact ⟨hI, fun e he => by cases he; exact hE _ rfl⟩
  · rw [h] at hI
    exact hf a t hI

theorem Safe.imp {E' : CompileError → Prop} (h : ∀ e, E e → E' e) {x : Compile α}
    (hx : Safe I E x) : Safe I E' x :=
  fun s hs => ⟨(hx s hs).1, fun e he => h e ((hx s hs).2 e he)⟩

/-- What holds of all errors holds of those that are not caught. -/
theorem Safe.uncaught {x : Compile α} (hx : Safe I E x) :
    Safe I (fun e => e.isMissing = false → E e) x := by
  refine hx.imp fun e he hmissing => ?_
  exact he

theorem Safe.report (hI : Steady I) (e : Log.Entry) : Safe I E (report e) :=
  fun _ hs => ⟨hI.log _ hs, fun _ h => by cases h⟩

theorem Safe.countInstance (hI : Steady I) : Safe I E countInstance :=
  fun _ hs => ⟨hI.counted hs, fun _ h => by cases h⟩

theorem Safe.except {x : Except CompileError α} (h : ∀ e, x = .error e → E e) :
    Safe I E (liftM x : Compile α) := by
  intro s hs
  rw [outcome_except]
  exact ⟨hs, h⟩

end Compile

namespace Compiler

open Compile

variable {I : Progress → Prop} {E : CompileError → Prop} {c : Compiler} {v : Visit}

theorem splice_safe (hI : Steady I) (target : Path) (f : Fragment) (tag : Tag)
    (children : Forest) {content : Compile Forest} (hc : Safe I E content) :
    Safe I E (c.splice target f tag children content) := by
  refine (Safe.countInstance hI).bind fun n => ?_
  dsimp only
  split
  · exact hc.bind fun _ => Safe.pure _
  · split
    · exact (Safe.report hI _).bind fun _ => Safe.pure _
    · exact Safe.pure _

theorem instantiate_safe (hI : Steady I)
    (hv : ∀ p, Safe I (fun e => e.isMissing = false → E e) (v p)) (folder target : Path) (tag : Tag)
    (children : Forest) {content : Compile Forest} (hc : Safe I E content) :
    Safe I E (c.instantiate v folder target tag children content) := by
  intro s hs
  obtain ⟨hs', hE⟩ := hv target s hs
  unfold instantiate
  rw [outcome_bind, outcome_attempt]
  rcases h : outcome (v target) s with ⟨e | f, t⟩
  · rw [h] at hs' hE
    dsimp only
    split
    · exact ((Safe.report hI _).bind fun _ => hc.bind fun _ => Safe.pure _) t hs'
    · rename_i hmissing
      exact ⟨hs', fun e' he' => by cases he'; exact hE e rfl (Bool.eq_false_iff.2 hmissing)⟩
  · rw [h] at hs'
    rcases f with _ | f
    · exact Safe.pure _ t hs'
    · exact splice_safe hI target f tag children hc t hs'

mutual

theorem expandNode_safe (hI : Steady I)
    (hv : ∀ p, Safe I (fun e => e.isMissing = false → E e) (v p)) (folder : Path) :
    ∀ n : Node, Safe I E (c.expandNode v folder n)
  | .element tag children => by
    have hc := expand_safe hI hv folder children
    unfold expandNode
    split
    · exact instantiate_safe hI hv folder _ tag children hc
    · refine Safe.bind ?_ fun _ => hc.bind fun _ => Safe.pure _
      rcases (c.targetIn folder tag).warning? folder with _ | w
      · exact Safe.pure _
      · exact Safe.report hI w
  | .text _ | .comment _ | .doctype _ | .instruction _ | .cdata _ => Safe.pure _

/-- What visits keep is kept by an expansion, which fails only as a visit does that finds a
document. -/
theorem expand_safe (hI : Steady I)
    (hv : ∀ p, Safe I (fun e => e.isMissing = false → E e) (v p)) (folder : Path) :
    ∀ ns : Forest, Safe I E (c.expand v folder ns)
  | [] => Safe.pure _
  | n :: ns => by
    unfold expand
    exact (expandNode_safe hI hv folder n).bind fun _ =>
      (expand_safe hI hv folder ns).bind fun _ => Safe.pure _

end

/-- What is left behind when the compile of a component was logged. -/
def noted (p : Path) (s : Progress) : Progress :=
  { s with log := s.log ++ [{ source := "compile", message := p.text, detail := true }] }

theorem compileFragment_safe (hI : Steady I) {enter : Document → Compile Forest} {p : Path}
    (he : ∀ d, c.sources.document p = .ok d → Safe I E (enter d))
    (hE : ∀ e, c.sources.document p = .error e → E e) :
    Safe I E (c.compileFragment enter p) := by
  refine (Safe.report hI _).bind fun _ => ?_
  rcases h : c.sources.document p with e | d
  · intro s hs
    rw [outcome_bind, outcome_except]
    exact ⟨hs, fun e' he' => by cases he'; exact hE e h⟩
  · exact (he d h).bind fun _ => Safe.pure _

theorem outcome_compileFragment (enter : Document → Compile Forest) (p : Path) (s : Progress) :
    outcome (c.compileFragment enter p) s =
      match c.sources.document p with
      | .ok d => outcome (c.toFragment p d <$> enter d) (noted p s)
      | .error e => (.error e, noted p s) := by
  unfold compileFragment
  rcases c.sources.document p with e | d
  · simp only [outcome_bind, outcome_detail, outcome_except]
    rfl
  · simp only [outcome_bind, outcome_detail, outcome_except, map_eq_pure_bind]
    rfl

theorem outcome_expandSource (v : Visit) (path folder : Path) (html : String) (s : Progress) :
    outcome (c.expandSource v path folder html) s =
      match parse html with
      | .ok ns => outcome (c.expand v folder ns) s
      | .error e => (.error (.malformed path e), s) := by
  unfold expandSource parseAt
  rw [outcome_bind, outcome_except]
  rcases parse html with e | ns
  · rfl
  · rfl

/-- A claim that was compiled is handed in or given up. -/
theorem outcome_compileClaimed (enter : Document → Compile Forest) (p : Path) (s : Progress) :
    outcome (c.compileClaimed enter p) s =
      match outcome (c.compileFragment enter p) s with
      | (.ok f, t) =>
        (.ok f, { t with
          cache := if t.scope.cuts = s.scope.cuts then t.cache.finish p f else t.cache.abandon p })
      | (.error e, t) => (.error e, { t with cache := t.cache.abandon p }) := by
  unfold compileClaimed
  simp only [outcome_bind, outcome_cuts, outcome_attempt]
  rcases outcome (c.compileFragment enter p) s with ⟨e | f, t⟩
  · rfl
  · by_cases h : t.scope.cuts = s.scope.cuts <;> simp [outcome_bind, h, Except.map]

theorem compileClaimed_safe (hI : Lasting I) {enter : Document → Compile Forest} {p : Path}
    (h : Safe I E (c.compileFragment enter p)) : Safe I E (c.compileClaimed enter p) := by
  intro s hs
  obtain ⟨hs', hE⟩ := h s hs
  rw [outcome_compileClaimed]
  rcases hx : outcome (c.compileFragment enter p) s with ⟨e | f, t⟩
  · rw [hx] at hs' hE
    exact ⟨hI.cache _ hs', fun e' he' => by cases he'; exact hE e rfl⟩
  · rw [hx] at hs'
    exact ⟨hI.cache _ hs', fun _ h => by cases h⟩

/-- A component that contains itself is left out. -/
theorem outcome_visit_around {enter : List Path → Document → Compile Forest} {around : List Path}
    {p : Path} (hp : around.any (·.same p) = true) (s : Progress) :
    outcome (c.visit enter around p) s =
      (.ok none, { s with
        log := s.log ++ [⟨"cycle", s!"`{p}` includes itself, substituted nothing", true⟩]
        scope := { s.scope with cuts := s.scope.cuts + 1 } }) := by
  unfold visit
  rw [if_pos hp]
  rfl

theorem outcome_visit_busy (hr : c.reuse = false) {enter : List Path → Document → Compile Forest}
    {around : List Path} {p : Path} (hp : around.any (·.same p) = false) (s : Progress) :
    outcome (c.visit enter around p) s =
      outcome (some <$> c.compileFragment (enter (p :: around)) p) s := by
  unfold visit claim
  rw [if_neg (by simp [hp]), if_neg (by simp [hr])]
  rfl

theorem outcome_visit_claim (hr : c.reuse = true)
    {enter : List Path → Document → Compile Forest} {around : List Path} {p : Path}
    (hp : around.any (·.same p) = false) (s : Progress) :
    outcome (c.visit enter around p) s =
      match s.cache.get? p with
      | some (.compiled f) =>
        (.ok (some f), { s with log := s.log ++ [⟨"cache", s!"reusing {p}", true⟩] })
      | some .inProgress => outcome (some <$> c.compileFragment (enter (p :: around)) p) s
      | none =>
        outcome (some <$> c.compileClaimed (enter (p :: around)) p)
          { s with cache := (s.cache.claim p).2 } := by
  unfold visit claim
  rw [if_neg (by simp [hp]), if_pos hr, outcome_bind, outcome_claim, Cache.claim]
  rcases s.cache.get? p with _ | _ | f
  · rfl
  · rfl
  · rfl

theorem outcome_finishPage (ns : Forest) (s : Progress) :
    outcome (c.finishPage ns) s =
      if c.dedupe then
        (.ok (retainFirst s.scope.scripts ns).1,
          { s with scope := { s.scope with scripts := (retainFirst s.scope.scripts ns).2 } })
      else (.ok ns, s) := by
  unfold finishPage
  split
  · rfl
  · rfl

/-! ## What steps that succeed have done -/

theorem bind_ok {α β : Type} {x : Compile α} {f : α → Compile β} {s t : Progress} {b : β}
    (h : outcome (x >>= f) s = (.ok b, t)) :
    ∃ a s', outcome x s = (.ok a, s') ∧ outcome (f a) s' = (.ok b, t) := by
  rw [outcome_bind] at h
  generalize outcome x s = o at h ⊢
  obtain ⟨e | a, s'⟩ := o
  · cases h
  · exact ⟨a, s', rfl, h⟩

theorem compileFragment_ok {enter : Document → Compile Forest} {p : Path} {s t : Progress}
    {f : Fragment} (h : outcome (c.compileFragment enter p) s = (.ok f, t)) :
    ∃ d ns, c.sources.document p = .ok d ∧ outcome (enter d) (noted p s) = (.ok ns, t) ∧
      f = c.toFragment p d ns := by
  rw [outcome_compileFragment] at h
  rcases hd : c.sources.document p with e | d
  · rw [hd] at h
    cases h
  · rw [hd] at h
    dsimp only at h
    rw [map_eq_pure_bind] at h
    obtain ⟨ns, s', hns, hf⟩ := bind_ok h
    cases hf
    exact ⟨d, ns, rfl, hns, rfl⟩

/-- An instance is spliced in with its slots filled, or as it is if it has none. -/
theorem splice_ok {target : Path} {f : Fragment} {tag : Tag} {children : Forest}
    {content : Compile Forest} {s t : Progress} {ns : Forest}
    (h : outcome (c.splice target f tag children content) s = (.ok ns, t)) :
    (∃ xs, outcome content (counted s) = (.ok xs, t) ∧
      ns = (fillSlots (c.filling? xs) true
        (f.spliced tag (UInt32.ofNat (s.scope.instances + 1)))).1) ∨
    ns = f.spliced tag (UInt32.ofNat (s.scope.instances + 1)) ∧ t.scope = (counted s).scope := by
  unfold splice at h
  obtain ⟨number, s₁, hcount, h⟩ := bind_ok h
  cases hcount
  dsimp only at h
  split at h
  · obtain ⟨xs, t', hxs, h⟩ := bind_ok h
    cases h
    exact .inl ⟨xs, hxs, rfl⟩
  · split at h
    · obtain ⟨_, t', ht', h⟩ := bind_ok h
      cases ht'
      cases h
      exact .inr ⟨rfl, rfl⟩
    · cases h
      exact .inr ⟨rfl, rfl⟩

/-- An element that stands for a document is left out, replaced by an instance of its component, or
kept if there is no such document. -/
theorem instantiate_ok {folder target : Path} {tag : Tag} {children : Forest}
    {content : Compile Forest} {s t : Progress} {ns : Forest}
    (h : outcome (c.instantiate v folder target tag children content) s = (.ok ns, t)) :
    ns = [] ∨
    (∃ f s', outcome (v target) s = (.ok (some f), s') ∧
      outcome (c.splice target f tag children content) s' = (.ok ns, t)) ∨
    ∃ (l : List Log.Entry) (xs : Forest),
      outcome content { (outcome (v target) s).2 with log := l } = (.ok xs, t) ∧
        ns = [.element tag xs] := by
  unfold instantiate at h
  rw [outcome_bind, outcome_attempt] at h
  rcases hv : outcome (v target) s with ⟨e | _ | f, s'⟩
  · rw [hv] at h
    dsimp only at h
    split at h
    · obtain ⟨_, s₁, hs₁, h⟩ := bind_ok h
      cases hs₁
      obtain ⟨xs, t', hxs, h⟩ := bind_ok h
      cases h
      exact .inr (.inr ⟨_, xs, hxs, rfl⟩)
    · cases h
  · rw [hv] at h
    cases h
    exact .inl rfl
  · rw [hv] at h
    exact .inr (.inl ⟨f, s', rfl, h⟩)

/-- A visit is as safe as the expansion of the document that it visits. -/
theorem visit_safe (hI : Lasting I) {enter : List Path → Document → Compile Forest}
    {around : List Path} {p : Path}
    (he : around.any (·.same p) = false → ∀ d, c.sources.document p = .ok d →
      Safe I E (enter (p :: around) d))
    (hE : ∀ e, c.sources.document p = .error e → E e) :
    Safe I E (c.visit enter around p) := by
  unfold visit
  by_cases hp : around.any (·.same p) = true
  · rw [if_pos hp]
    intro s hs
    exact ⟨hI.cut (hI.log _ hs), fun _ h => by cases h⟩
  rw [if_neg hp]
  have hf : Safe I E (c.compileFragment (enter (p :: around)) p) :=
    compileFragment_safe hI.toSteady (he (by simpa using hp)) hE
  refine Safe.bind (x := c.claim p) ?_ fun claim => ?_
  · intro s hs
    unfold claim
    split
    · exact ⟨hI.cache _ hs, fun _ h => by cases h⟩
    · exact Safe.pure _ s hs
  · rcases claim with f | _ | _
    · exact (Safe.report hI.toSteady _).bind fun _ => Safe.pure _
    · exact hf.bind fun _ => Safe.pure _
    · exact (compileClaimed_safe hI hf).bind fun _ => Safe.pure _

theorem expandSource_safe (hI : Steady I)
    (hv : ∀ p, Safe I (fun e => e.isMissing = false → E e) (v p)) (path folder : Path)
    (html : String) (hE : ∀ e, parseAt path html = .error e → E e) :
    Safe I E (c.expandSource v path folder html) :=
  (Safe.except hE).bind fun ns => expand_safe hI hv folder ns

end Compiler

/-! ## Counters -/

/-- The counters of `t` are not behind those of `s`, and both keep the same scripts. -/
structure Progress.Extends (s t : Progress) : Prop where
  instances_le : s.scope.instances ≤ t.scope.instances
  cuts_le : s.scope.cuts ≤ t.scope.cuts
  scripts_eq : t.scope.scripts = s.scope.scripts

namespace Progress.Extends

theorem refl (s : Progress) : s.Extends s := ⟨Nat.le_refl _, Nat.le_refl _, rfl⟩

theorem trans {s t u : Progress} (h : s.Extends t) (h' : t.Extends u) : s.Extends u :=
  ⟨Nat.le_trans h.instances_le h'.instances_le, Nat.le_trans h.cuts_le h'.cuts_le,
    h'.scripts_eq.trans h.scripts_eq⟩

theorem lasting (s : Progress) : Compile.Lasting s.Extends where
  log _ h := ⟨h.instances_le, h.cuts_le, h.scripts_eq⟩
  cache _ h := ⟨h.instances_le, h.cuts_le, h.scripts_eq⟩
  counted h := ⟨Nat.le_succ_of_le h.instances_le, h.cuts_le, h.scripts_eq⟩
  cut h := ⟨h.instances_le, Nat.le_succ_of_le h.cuts_le, h.scripts_eq⟩

end Progress.Extends

/-- What a step leaves behind extends what it starts from. -/
def Compile.Extending {α : Type} (x : Compile α) : Prop := ∀ s : Progress, s.Extends (outcome x s).2

namespace Compile

variable {α β : Type}

theorem extending_iff {x : Compile α} :
    x.Extending ↔ ∀ s : Progress, x.Safe s.Extends fun _ => True := by
  constructor
  · intro h s t hst
    exact ⟨hst.trans (h t), fun _ _ => trivial⟩
  · intro h s
    exact (h s s (.refl s)).1

theorem Extending.pure (a : α) : Extending (pure a : Compile α) := fun s => .refl s

theorem Extending.bind {x : Compile α} {f : α → Compile β} (hx : x.Extending)
    (hf : ∀ a, (f a).Extending) : (x >>= f).Extending :=
  extending_iff.2 fun s => (extending_iff.1 hx s).bind fun a => extending_iff.1 (hf a) s

theorem Extending.except (x : Except CompileError α) : Extending (liftM x : Compile α) :=
  extending_iff.2 fun _ => Safe.except fun _ _ => trivial

theorem Extending.report (e : Log.Entry) : (report e).Extending :=
  extending_iff.2 fun s => Safe.report (Progress.Extends.lasting s).toSteady e

/-- What follows a step extends what the step leaves behind. -/
theorem extends_bind (x : Compile α) {f : α → Compile β} (hf : ∀ a, (f a).Extending)
    (s : Progress) : (outcome x s).2.Extends (outcome (x >>= f) s).2 := by
  rw [outcome_bind]
  rcases outcome x s with ⟨e | a, t⟩
  · exact .refl t
  · exact hf a t

end Compile

namespace Compiler

open Compile

variable {c : Compiler} {v : Visit}

theorem splice_extending (target : Path) (f : Fragment) (tag : Tag) (children : Forest)
    {content : Compile Forest} (hc : content.Extending) :
    (c.splice target f tag children content).Extending :=
  extending_iff.2 fun s =>
    splice_safe (Progress.Extends.lasting s).toSteady target f tag children (extending_iff.1 hc s)

theorem expandNode_extending (hv : ∀ p, (v p).Extending) (folder : Path) (n : Node) :
    (c.expandNode v folder n).Extending :=
  extending_iff.2 fun s =>
    expandNode_safe (Progress.Extends.lasting s).toSteady
      (fun p => (extending_iff.1 (hv p) s).uncaught) folder n

theorem expand_extending (hv : ∀ p, (v p).Extending) (folder : Path) (ns : Forest) :
    (c.expand v folder ns).Extending :=
  extending_iff.2 fun s =>
    expand_safe (Progress.Extends.lasting s).toSteady
      (fun p => (extending_iff.1 (hv p) s).uncaught) folder ns

theorem visit_extending {enter : List Path → Document → Compile Forest}
    (he : ∀ around d, (enter around d).Extending) (around : List Path) (p : Path) :
    (c.visit enter around p).Extending :=
  extending_iff.2 fun s =>
    visit_safe (Progress.Extends.lasting s) (fun _ d _ => extending_iff.1 (he _ d) s)
      fun _ _ => trivial

theorem expandSource_extending (hv : ∀ p, (v p).Extending) (path folder : Path) (html : String) :
    (c.expandSource v path folder html).Extending :=
  (Extending.except _).bind fun ns => expand_extending hv folder ns

theorem expandDocument_extending (depth : Nat) :
    ∀ around d, (c.expandDocument depth around d).Extending := by
  induction depth with
  | zero => exact fun _ _ s => .refl s
  | succ depth ih => exact fun around d => expandSource_extending (visit_extending ih around) _ _ _

end Compiler

end StaticSite

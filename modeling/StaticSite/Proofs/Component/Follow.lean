import Mathlib.Order.Defs.PartialOrder
import StaticSite.Proofs.Component.Outcome
import StaticSite.Proofs.Html.Written

/-!
# Compiles that follow each other

Two compilers are compared by running their compiles side by side. A `Link` says what corresponds
to what, and that it still does so after each way in which an expansion builds a forest. If visits
then follow each other, so do expansions (`Compiler.expand_follows`).

What is known about how two compiles correspond may grow while they run: it is a value of an ordered
type, as in a Kripke model.
-/

namespace StaticSite

open StaticSite.Html

/-- What is known where nothing more is learnt. -/
inductive Link.Fixed where
  | fixed

instance : Preorder Link.Fixed where
  le _ _ := True
  le_refl _ := trivial
  le_trans _ _ _ _ _ := trivial

/-- How compiles of `c` and `c'` correspond. -/
structure Link (c c' : Compiler) (W : Type) [Preorder W] where
  /-- What both compiles left behind so far corresponds. -/
  Together : W → Progress → Progress → Prop
  /-- Forests that correspond. -/
  Alike : W → Forest → Forest → Prop
  /-- Fragments that correspond. -/
  Fragments : Fragment → Fragment → Prop
  /-- The compiles went too far to be compared any longer. -/
  Lost : Progress → Progress → Prop
  /-- The left compile may use up its depth where the right one does not. -/
  excuseLeft : Prop
  /-- The right compile may use up its depth where the left one does not. -/
  excuseRight : Prop
  lost_extends {s t s' t' : Progress} :
    Lost s t → s.Extends s' → t.Extends t' → Lost s' t'
  log {w : W} {s t : Progress} (l l' : List Log.Entry) :
    Together w s t → Together w { s with log := l } { t with log := l' }
  mono {w w' : W} {ns ms : Forest} : w ≤ w' → Alike w ns ms → Alike w' ns ms
  nil (w : W) : Alike w [] []
  append {w : W} {ns ms ns' ms' : Forest} :
    Alike w ns ms → Alike w ns' ms' → Alike w (ns ++ ns') (ms ++ ms')
  leaf (w : W) {n : Node} : n.isLeaf = true → Alike w [n] [n]
  element {w : W} {tag : Tag} {ns ms : Forest} :
    tag.origin = none → (tag.is "script" = true → ns = ms ∧ ∀ n ∈ ns, n.isLeaf = true) →
      Alike w ns ms → Alike w [.element tag ns] [.element tag ms]
  stamp {w : W} {s t : Progress} {f g : Fragment} (tag : Tag) :
    Together w s t → Fragments f g → ∃ w', w ≤ w' ∧
      Together w' (Compile.counted s) (Compile.counted t) ∧
      Alike w' (f.spliced tag (UInt32.ofNat (s.scope.instances + 1)))
        (g.spliced tag (UInt32.ofNat (t.scope.instances + 1)))
  hasSlot {w : W} {ns ms : Forest} : Alike w ns ms → hasSlot ns = hasSlot ms
  fill {w : W} {ns ms xs ys : Forest} : Alike w ns ms → Alike w xs ys →
    Alike w (fillSlots (c.filling? xs) true ns).1 (fillSlots (c'.filling? ys) true ms).1

namespace Link

open Compile

variable {c c' : Compiler} {W : Type} [Preorder W] {α β : Type} {w w' : W}

/-- Two outcomes correspond, if they can be compared. -/
inductive Agree (L : Link c c' W) (w : W) (A : W → α → α → Prop) :
    Except CompileError α × Progress → Except CompileError α × Progress → Prop where
  | ok {w' : W} {a b : α} {s t : Progress} (hw : w ≤ w') (h : L.Together w' s t) (ha : A w' a b) :
      Agree L w A (.ok a, s) (.ok b, t)
  | error {w' : W} {e : CompileError} {s t : Progress} (hw : w ≤ w') (h : L.Together w' s t) :
      Agree L w A (.error e, s) (.error e, t)
  | lost {x y : Except CompileError α × Progress} (h : L.Lost x.2 y.2) : Agree L w A x y
  | left {p : Path} {s : Progress} {y : Except CompileError α × Progress} (h : L.excuseLeft) :
      Agree L w A (.error (.tooDeep p), s) y
  | right {p : Path} {t : Progress} {x : Except CompileError α × Progress} (h : L.excuseRight) :
      Agree L w A x (.error (.tooDeep p), t)

/-- Steps that take corresponding progress to corresponding outcomes. -/
def Follows (L : Link c c' W) (w : W) (A : W → α → α → Prop) (x y : Compile α) : Prop :=
  ∀ s t, L.Together w s t → L.Agree w A (outcome x s) (outcome y t)

variable {L : Link c c' W} {A : W → α → α → Prop} {B : W → β → β → Prop}

theorem Agree.of_le (hw : w ≤ w') {x y : Except CompileError α × Progress} (h : L.Agree w' A x y) :
    L.Agree w A x y := by
  cases h with
  | ok hw' h ha => exact .ok (le_trans hw hw') h ha
  | error hw' h => exact .error (le_trans hw hw') h
  | lost h => exact .lost h
  | left he => exact .left he
  | right h => exact .right h

/-- Outcomes that can be compared are both results that correspond, or both the same error. -/
theorem Agree.cases (hlost : ∀ s t, ¬L.Lost s t) (hright : ¬L.excuseRight)
    {x y : Except CompileError α × Progress} (h : L.Agree w A x y)
    (hx : ∀ q, x.1 ≠ .error (.tooDeep q)) :
    (∃ w' a b s t, x = (.ok a, s) ∧ y = (.ok b, t) ∧ L.Together w' s t ∧ A w' a b) ∨
      ∃ e s t, x = (.error e, s) ∧ y = (.error e, t) := by
  cases h with
  | ok _ hst ha => exact .inl ⟨_, _, _, _, _, rfl, rfl, hst, ha⟩
  | error _ _ => exact .inr ⟨_, _, _, rfl, rfl⟩
  | lost hl => exact (hlost _ _ hl).elim
  | left _ => exact (hx _ rfl).elim
  | right he => exact (hright he).elim

theorem Agree.imp {A' : W → α → α → Prop} (h : ∀ {w' a b}, A w' a b → A' w' a b)
    {x y : Except CompileError α × Progress} (hxy : L.Agree w A x y) : L.Agree w A' x y := by
  cases hxy with
  | ok hw hst ha => exact .ok hw hst (h ha)
  | error hw hst => exact .error hw hst
  | lost hl => exact .lost hl
  | left he => exact .left he
  | right he => exact .right he

theorem Follows.pure {a b : α} (h : A w a b) : L.Follows w A (pure a) (pure b) :=
  fun _ _ hst => .ok (le_refl w) hst h

theorem Follows.report (e e' : Log.Entry) :
    L.Follows w (fun _ _ _ => True) (report e) (report e') :=
  fun _ _ hst => .ok (le_refl w) (L.log _ _ hst) trivial

theorem Follows.bind {x y : Compile α} {f g : α → Compile β} (hxy : L.Follows w A x y)
    (hf : ∀ a, (f a).Extending) (hg : ∀ a, (g a).Extending)
    (h : ∀ w' a b, w ≤ w' → A w' a b → L.Follows w' B (f a) (g b)) :
    L.Follows w B (x >>= f) (y >>= g) := by
  intro s t hst
  have hs := extends_bind x hf s
  have ht := extends_bind y hg t
  have h' := hxy s t hst
  rw [outcome_bind] at hs ht ⊢
  rw [outcome_bind]
  generalize outcome x s = o at hs h' ⊢
  generalize outcome y t = o' at ht h' ⊢
  cases h' with
  | ok hw hst' ha => exact (h _ _ _ hw ha _ _ hst').of_le hw
  | error hw hst' => exact .error hw hst'
  | lost hl => exact .lost (L.lost_extends hl hs ht)
  | left he => exact .left he
  | right he => exact .right he

theorem Agree.map_some {x y : Compile Fragment} {s t : Progress}
    (h : L.Agree w (fun _ => L.Fragments) (outcome x s) (outcome y t)) :
    L.Agree w (fun _ => Option.Rel L.Fragments) (outcome (some <$> x) s)
      (outcome (some <$> y) t) := by
  rw [outcome_map, outcome_map]
  generalize outcome x s = o at h ⊢
  generalize outcome y t = o' at h ⊢
  cases h with
  | ok hw hst ha => exact .ok hw hst (.some ha)
  | error hw hst => exact .error hw hst
  | lost hl => exact .lost hl
  | left he => exact .left he
  | right he => exact .right he

/-- Visits follow each other, and never take back what was left behind. -/
structure Visits (L : Link c c' W) (v v' : Compiler.Visit) : Prop where
  follows : ∀ w p, L.Follows w (fun _ => Option.Rel L.Fragments) (v p) (v' p)
  left : ∀ p, (v p).Extending
  right : ∀ p, (v' p).Extending

theorem leaves (L : Link c c' W) (w : W) {ns : Forest} (h : ∀ n ∈ ns, n.isLeaf = true) :
    L.Alike w ns ns := by
  induction ns with
  | nil => exact L.nil w
  | cons n ns ih =>
    obtain ⟨hn, hns⟩ := List.forall_mem_cons.1 h
    exact L.append (L.leaf w hn) (ih hns)

end Link

namespace Compiler

open Compile Link

variable {c c' : Compiler} {W : Type} [Preorder W] {L : Link c c' W} {w : W}

theorem splice_follows {f g : Fragment} (hfg : L.Fragments f g) (target : Path) (tag : Tag)
    (children : Forest) {x y : Compile Forest} (hxy : ∀ w, L.Follows w L.Alike x y) :
    L.Follows w L.Alike (c.splice target f tag children x) (c'.splice target g tag children y) := by
  intro s t hst
  obtain ⟨w₁, hw₁, hst₁, hnodes⟩ := L.stamp tag hst hfg
  unfold splice
  rw [outcome_bind, outcome_bind, outcome_countInstance, outcome_countInstance]
  refine Agree.of_le hw₁ ?_
  show L.Agree w₁ L.Alike (outcome (if Html.hasSlot (f.spliced tag _) = true then _ else _) _)
    (outcome (if Html.hasSlot (g.spliced tag _) = true then _ else _) _)
  rw [L.hasSlot hnodes]
  split
  · refine (hxy w₁).bind (fun _ => .pure _) (fun _ => .pure _) (fun w₂ a b hw₂ hab => ?_) _ _ hst₁
    exact .pure (L.fill (L.mono hw₂ hnodes) hab)
  · split
    · refine (Follows.report _ _).bind (fun _ => .pure _) (fun _ => .pure _)
        (fun w₂ _ _ hw₂ _ => ?_) _ _ hst₁
      exact .pure (L.mono hw₂ hnodes)
    · exact Follows.pure hnodes _ _ hst₁

/-- The expansion of what holds no elements is what it is. -/
theorem expand_leaves (v : Visit) (folder : Path) {ns : Forest} (h : ∀ n ∈ ns, n.isLeaf = true) :
    c.expand v folder ns = pure ns := by
  induction ns with
  | nil => rfl
  | cons n ns ih =>
    obtain ⟨hn, hns⟩ := List.forall_mem_cons.1 h
    have hnode : c.expandNode v folder n = pure [n] := by
      cases n <;> first | rfl | cases hn
    rw [expand, hnode, ih hns]
    rfl

theorem extends_instantiate (v : Visit) (folder target : Path) (tag : Tag) (children : Forest)
    {content : Compile Forest} (hc : content.Extending) (s : Progress) :
    (outcome (v target) s).2.Extends
      (outcome (c.instantiate v folder target tag children content) s).2 := by
  unfold instantiate
  refine extends_bind (attempt (v target)) (fun result => ?_) s
  rcases result with e | _ | f
  · dsimp only
    split
    · exact (Extending.report _).bind fun _ => hc.bind fun _ => .pure _
    · exact fun s => .refl s
  · exact .pure _
  · exact splice_extending target f tag children hc

theorem outcome_warn (o : Option Log.Entry) (s : Progress) :
    ∃ l, outcome (o.forM report) s = (.ok ⟨⟩, { s with log := l }) := by
  rcases o with _ | e
  · exact ⟨s.log, rfl⟩
  · exact ⟨s.log ++ [e], rfl⟩

theorem warn_follows (o o' : Option Log.Entry) :
    L.Follows w (fun _ _ _ => True) (o.forM report) (o'.forM report) := by
  intro s t hst
  obtain ⟨l, hl⟩ := outcome_warn o s
  obtain ⟨l', hl'⟩ := outcome_warn o' t
  rw [hl, hl']
  exact .ok (le_refl w) (L.log l l' hst) trivial

/-- A script stands for itself. -/
theorem not_script_of_targetIn {folder target : Path} {tag : Tag}
    (h : c.targetIn folder tag = .document target) : tag.is "script" = false := by
  rw [Bool.eq_false_iff]
  intro hs
  rw [Tag.is, Text.sameName, beq_iff_eq] at hs
  unfold targetIn References.target at h
  split at h
  · rename_i hi
    rw [Tag.is, Text.sameName, beq_iff_eq, hs] at hi
    exact absurd hi (by decide)
  · split at h
    · cases h
    · rename_i name hname
      unfold componentName? at hname
      split at hname
      · rename_i hchars
        rw [hchars] at hs
        have hdash := congrArg (fun l => l[1]?) hs
        exact absurd hdash (by simp [Text.lower])
      · cases hname

variable {v v' : Visit} {folder folder' : Path}

theorem instantiate_follows (hv : L.Visits v v') (target : Path) {tag : Tag}
    (ht : tag.origin = none) (hs : tag.is "script" = false) (children : Forest)
    {x y : Compile Forest} (hx : x.Extending) (hy : y.Extending)
    (hxy : ∀ w, L.Follows w L.Alike x y) :
    L.Follows w L.Alike (c.instantiate v folder target tag children x)
      (c'.instantiate v' folder' target tag children y) := by
  intro s t hst
  have h := hv.follows w target s t hst
  have hl := extends_instantiate (c := c) v folder target tag children hx s
  have hr := extends_instantiate (c := c') v' folder' target tag children hy t
  unfold instantiate at hl hr ⊢
  rw [outcome_bind, outcome_attempt] at hl hr ⊢
  rw [outcome_bind, outcome_attempt]
  generalize outcome (v target) s = o at hl h ⊢
  generalize outcome (v' target) t = o' at hr h ⊢
  cases h with
  | lost hlost => exact .lost (L.lost_extends hlost hl hr)
  | left he => exact .left he
  | right he => exact .right he
  | error hw hst' =>
    dsimp only
    split
    · refine Agree.of_le hw ?_
      refine (Follows.report _ _).bind (fun _ => hx.bind fun _ => .pure _)
        (fun _ => hy.bind fun _ => .pure _) (fun w₁ _ _ _ _ => ?_) _ _ hst'
      refine (hxy w₁).bind (fun _ => .pure _) (fun _ => .pure _) fun w₂ ns ms _ hnm => ?_
      exact .pure (L.element ht (fun h => absurd h (by simp [hs])) hnm)
    · exact .error hw hst'
  | ok hw hst' ha =>
    refine Agree.of_le hw ?_
    cases ha with
    | none => exact Follows.pure (L.nil _) _ _ hst'
    | some hfg => exact splice_follows hfg target tag children hxy _ _ hst'

mutual

theorem expandNode_follows (hv : L.Visits v v')
    (htarget : ∀ tag, c.targetIn folder tag = c'.targetIn folder' tag) :
    ∀ {n : Node}, n.Written → ∀ w : W,
      L.Follows w L.Alike (c.expandNode v folder n) (c'.expandNode v' folder' n)
  | .element tag children, hn, w => by
    obtain ⟨ht, hscript, hchildren⟩ : tag.origin = none ∧
        (tag.is "script" = true → ∀ n ∈ children, n.isLeaf = true) ∧ Written children := by
      cases hn with
      | element ht hs hcs => exact ⟨ht, hs, hcs⟩
      | leaf h => cases h
    have hx := expand_extending (c := c) hv.left folder children
    have hy := expand_extending (c := c') hv.right folder' children
    have hxy := expand_follows hv htarget hchildren
    unfold expandNode
    rw [htarget]
    split
    · rename_i target h
      exact instantiate_follows hv target ht (not_script_of_targetIn h) children hx hy hxy
    · refine (warn_follows _ _).bind (fun _ => hx.bind fun _ => .pure _)
        (fun _ => hy.bind fun _ => .pure _) fun w₁ _ _ _ _ => ?_
      by_cases hs : tag.is "script" = true
      · rw [expand_leaves v folder (hscript hs), expand_leaves v' folder' (hscript hs)]
        exact .pure (L.element ht (fun _ => ⟨rfl, hscript hs⟩) (L.leaves w₁ (hscript hs)))
      · refine (hxy w₁).bind (fun _ => .pure _) (fun _ => .pure _) fun w₂ ns ms _ hnm => ?_
        exact .pure (L.element ht (fun h => absurd h hs) hnm)
  | .text _, _, w | .comment _, _, w | .doctype _, _, w | .instruction _, _, w | .cdata _, _, w =>
    .pure (L.leaf w rfl)

/-- Expansions follow each other if visits do. -/
theorem expand_follows (hv : L.Visits v v')
    (htarget : ∀ tag, c.targetIn folder tag = c'.targetIn folder' tag) :
    ∀ {ns : Forest}, Written ns → ∀ w : W,
      L.Follows w L.Alike (c.expand v folder ns) (c'.expand v' folder' ns)
  | [], _, w => .pure (L.nil w)
  | n :: ns, hns, w => by
    obtain ⟨hn, hns⟩ := List.forall_mem_cons.1 hns
    rw [expand, expand]
    refine (expandNode_follows hv htarget hn w).bind
      (fun _ => (expand_extending hv.left folder ns).bind fun _ => .pure _)
      (fun _ => (expand_extending hv.right folder' ns).bind fun _ => .pure _) fun w₁ a b _ hab => ?_
    refine (expand_follows hv htarget hns w₁).bind (fun _ => .pure _) (fun _ => .pure _)
      fun w₂ as bs hw₂ habs => ?_
    exact .pure (L.append (L.mono hw₂ hab) habs)

end

theorem expandSource_follows (hv : L.Visits v v')
    (htarget : ∀ tag, c.targetIn folder tag = c'.targetIn folder' tag) (path : Path)
    (html : String) :
    L.Follows w L.Alike (c.expandSource v path folder html)
      (c'.expandSource v' path folder' html) := by
  intro s t hst
  rw [outcome_expandSource, outcome_expandSource]
  rcases hp : parse html with e | ns
  · exact .error (le_refl w) hst
  · exact expand_follows hv htarget (parse_written hp) w s t hst

/-- Components correspond if their documents do, and if expansions make fragments that correspond
as far as they can be compared. -/
theorem compileFragment_follows {A : Document → W → Forest → Forest → Prop}
    {enter enter' : Document → Compile Forest} {p : Path} (hs : c.sources = c'.sources)
    (he : ∀ d, c.sources.document p = .ok d → L.Follows w (A d) (enter d) (enter' d))
    (hf : ∀ {w s t ns ms} d, c.sources.document p = .ok d → L.Together w s t → ¬L.Lost s t →
      A d w ns ms → L.Fragments (c.toFragment p d ns) (c'.toFragment p d ms)) :
    L.Follows w (fun _ => L.Fragments) (c.compileFragment enter p)
      (c'.compileFragment enter' p) := by
  intro s t hst
  have hnoted : L.Together w (noted p s) (noted p t) := L.log _ _ hst
  rw [outcome_compileFragment, outcome_compileFragment, ← hs]
  rcases hd : c.sources.document p with e | d
  · exact .error (le_refl w) hnoted
  · dsimp only
    rw [map_eq_pure_bind, map_eq_pure_bind]
    refine ((he d hd).bind (fun _ => .pure _) (fun _ => .pure _) ?_) _ _ hnoted
    intro w₁ ns ms _ hnm s₁ t₁ hst₁
    by_cases hlost : L.Lost s₁ t₁
    · exact .lost hlost
    · exact .ok (le_refl w₁) hst₁ (hf d hd hst₁ hlost hnm)

end Compiler

end StaticSite

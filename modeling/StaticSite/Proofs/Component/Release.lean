import StaticSite.Proofs.Component.Stack

/-!
# What compiles leave of claims

A compile takes claims at every level, and leaves none behind, whether it succeeds or fails
(`Stacked.compilePage_releases`): the claims that were held are held, what was compiled is kept, and
what is new was compiled without leaving out anything. So a claim is refused only to a component
that somebody else held before, and in a session without others no claim ever is.
-/

namespace StaticSite

open StaticSite.Html

namespace Compiler

open Compile

variable {c : Compiler}

/-- On the way from `s` to `t`, the component at `p` was claimed and compiled to `f`, and nothing
was left out while it was. -/
def MadeBetween (c : Compiler) (s t : Progress) (p : Path) (f : Fragment) : Prop :=
  ∃ depth around q s' t', q.same p = true ∧ s.log <+: s'.log ∧ t'.log <+: t.log ∧
    s'.cache.get? p = some .inProgress ∧
    outcome (c.compileFragment (c.expandDocument depth (q :: around)) q) s' = (.ok f, t') ∧
    t'.scope.cuts = s'.scope.cuts

theorem MadeBetween.widen {s s' t' t : Progress} {p : Path} {f : Fragment}
    (h : c.MadeBetween s' t' p f) (hs : s.log <+: s'.log) (ht : t'.log <+: t.log) :
    c.MadeBetween s t p f := by
  obtain ⟨depth, around, q, s₁, t₁, hq, hs₁, ht₁, hmade⟩ := h
  exact ⟨depth, around, q, s₁, t₁, hq, hs.trans hs₁, ht₁.trans ht, hmade⟩

/-- What leads from `s` to `t` leaves no claim behind. -/
structure Released (c : Compiler) (s t : Progress) : Prop where
  log : s.log <+: t.log
  /-- The claims that are held are those that were held before. -/
  claims : ∀ p, t.cache.get? p = some .inProgress ↔ s.cache.get? p = some .inProgress
  /-- Components that were compiled are kept. -/
  kept : ∀ p f, s.cache.get? p = some (.compiled f) → t.cache.get? p = some (.compiled f)
  /-- Other components that are now compiled were not there, and are complete. -/
  fresh : ∀ p f, t.cache.get? p = some (.compiled f) →
    s.cache.get? p = some (.compiled f) ∨ s.cache.get? p = none ∧ c.MadeBetween s t p f

namespace Released

variable {s t u : Progress}

/-- What does not change the cache leaves no claim behind. -/
theorem of_cache_eq (hlog : s.log <+: t.log) (h : t.cache = s.cache) : c.Released s t where
  log := hlog
  claims p := by rw [h]
  kept p f hf := by rw [h, hf]
  fresh p f hf := by rw [h] at hf; exact .inl hf

theorem refl (s : Progress) : c.Released s s := of_cache_eq (List.prefix_refl _) rfl

theorem get?_eq_none (h : c.Released s t) {p : Path} (hp : t.cache.get? p = none) :
    s.cache.get? p = none := by
  rcases hs : s.cache.get? p with _ | _ | f
  · rfl
  · rw [(h.claims p).2 hs] at hp
    cases hp
  · rw [h.kept p f hs] at hp
    cases hp

theorem trans (h : c.Released s t) (h' : c.Released t u) : c.Released s u where
  log := h.log.trans h'.log
  claims p := (h'.claims p).trans (h.claims p)
  kept p f hf := h'.kept p f (h.kept p f hf)
  fresh p f hf := by
    rcases h'.fresh p f hf with ht | ⟨ht, hmade⟩
    · rcases h.fresh p f ht with hs | ⟨hs, hmade⟩
      · exact .inl hs
      · exact .inr ⟨hs, hmade.widen (List.prefix_refl _) h'.log⟩
    · exact .inr ⟨h.get?_eq_none ht, hmade.widen h.log (List.prefix_refl _)⟩

end Released

/-! ## Claims -/

/-- What is left behind when a component was claimed. -/
def claimedAt (p : Path) (s : Progress) : Progress := { s with cache := (s.cache.claim p).2 }

theorem get?_claimedAt {s : Progress} {p : Path} (hp : s.cache.get? p = none) (q : Path) :
    (claimedAt p s).cache.get? q = if p.same q then some .inProgress else s.cache.get? q := by
  rw [claimedAt, Cache.claim, hp]
  exact PathMap.get?_insert _ _ _ _

variable {s t : Progress} {p : Path}

/-- A claim that was taken leaves nothing behind if it is given up in the end, or if a component is
handed in that was made. -/
theorem Released.settle {k : Cache} {e : Option CacheEntry} (hp : s.cache.get? p = none)
    (h : c.Released (claimedAt p s) t)
    (hk : ∀ q, k.get? q = if p.same q then e else t.cache.get? q) (he : e ≠ some .inProgress)
    (hmade : ∀ f, e = some (.compiled f) → ∀ q, p.same q = true → c.MadeBetween s t q f) :
    c.Released s { t with cache := k } := by
  have hclaim := get?_claimedAt hp
  have hnone : ∀ {q}, p.same q = true → s.cache.get? q = none :=
    fun hq => (PathMap.get?_congr hq s.cache).symm.trans hp
  refine ⟨h.log, fun q => ?_, fun q f hf => ?_, fun q f hf => ?_⟩
  · dsimp only
    rw [hk]
    split
    · rename_i hq
      rw [hnone hq]
      exact ⟨fun h => absurd h he, fun h => by cases h⟩
    · rename_i hq
      rw [h.claims, hclaim, if_neg hq]
  · have hq : ¬p.same q = true := fun hq => by rw [hnone hq] at hf; cases hf
    dsimp only
    rw [hk, if_neg hq]
    refine h.kept q f ?_
    rw [hclaim, if_neg hq]
    exact hf
  · dsimp only at hf
    rw [hk] at hf
    split at hf
    · rename_i hq
      exact .inr ⟨hnone hq, hmade f hf q hq⟩
    · rename_i hq
      have hfresh := h.fresh q f hf
      rw [hclaim, if_neg hq] at hfresh
      exact hfresh

theorem Released.abandon (hp : s.cache.get? p = none) (h : c.Released (claimedAt p s) t) :
    c.Released s { t with cache := t.cache.abandon p } := by
  have hheld : t.cache.get? p = some .inProgress :=
    (h.claims p).2 (by rw [get?_claimedAt hp, if_pos (Path.same_refl p)])
  refine h.settle (e := none) hp (fun q => ?_) (fun h => by cases h) fun f h => by cases h
  rw [Cache.abandon, hheld]
  exact PathMap.get?_erase _ _ _

theorem Released.finish {depth : Nat} {around : List Path} {f : Fragment}
    (hp : s.cache.get? p = none)
    (hf : outcome (c.compileFragment (c.expandDocument depth (p :: around)) p) (claimedAt p s) =
      (.ok f, t))
    (hcuts : t.scope.cuts = s.scope.cuts) (h : c.Released (claimedAt p s) t) :
    c.Released s { t with cache := t.cache.finish p f } := by
  refine h.settle (e := some (.compiled f)) hp (fun q => PathMap.get?_insert _ _ _ _)
    (fun h => by cases h) fun g hg q hq => ?_
  cases hg
  refine ⟨depth, around, p, claimedAt p s, t, hq, List.prefix_refl _, List.prefix_refl _, ?_, hf,
    hcuts⟩
  rw [get?_claimedAt hp, if_pos hq]

end Compiler

namespace Stacked

open Compile Compiler

variable {α β : Type} {c : Compiler} {k : List Path}

/-- A step does what `f` does, told what is on the stack, and leaves the stack as it is. It leaves
no claim behind, and its own claims are refused only for components that were claimed when it
started, and that are neither in `k` nor on the stack. -/
def Mirrors (c : Compiler) (k : List Path) (x : Stacked α) (f : List Path → Compile α) : Prop :=
  ∀ m : Machine, ∃ refused,
    x.run m = ((outcome (f m.stack) m.progress).1,
      ⟨m.stack, m.refused ++ refused, (outcome (f m.stack) m.progress).2⟩) ∧
    (∀ q ∈ refused, m.progress.cache.get? q = some .inProgress ∧
      (k ++ m.stack).any (·.same q) = false) ∧
    c.Released m.progress (outcome (f m.stack) m.progress).2

namespace Mirrors

variable {x : Stacked α} {f : List Path → Compile α}

/-- A step that mirrors itself takes no claim. -/
theorem ofCompile {x : Compile α} (h : ∀ s, c.Released s (outcome x s).2) :
    Mirrors c k (ofCompile x) fun _ => x := by
  intro m
  refine ⟨[], ?_, fun q hq => (List.not_mem_nil hq).elim, h _⟩
  rw [run_ofCompile, List.append_nil]

theorem pure (a : α) : Mirrors c k (pure a) fun _ => Pure.pure a :=
  ofCompile (x := Pure.pure a) fun s => .refl s

theorem throw (e : CompileError) :
    Mirrors c k (throw e : Stacked α) fun _ => MonadExcept.throw e :=
  ofCompile (x := MonadExcept.throw e) fun s => .refl s

theorem report (e : Log.Entry) : Mirrors c k (Stacked.ofCompile (report e)) fun _ => report e :=
  ofCompile fun _ => .of_cache_eq (List.prefix_append _ _) rfl

theorem except (x : Except CompileError α) :
    Mirrors c k (Stacked.ofCompile (liftM x)) fun _ => liftM x := by
  refine ofCompile fun s => ?_
  rw [outcome_except]
  exact .refl s

theorem bind {g : α → Stacked β} {h : α → List Path → Compile β} (hx : Mirrors c k x f)
    (hg : ∀ a, Mirrors c k (g a) (h a)) :
    Mirrors c k (x >>= g) fun around => f around >>= fun a => h a around := by
  intro m
  obtain ⟨refused, hrun, hrefused, hreleased⟩ := hx m
  rw [run_bind, hrun, outcome_bind]
  generalize outcome (f m.stack) m.progress = o at hreleased
  obtain ⟨e | a, t⟩ := o
  · exact ⟨refused, rfl, hrefused, hreleased⟩
  · obtain ⟨more, hrun', hrefused', hreleased'⟩ :=
      hg a ⟨m.stack, m.refused ++ refused, t⟩
    refine ⟨refused ++ more, ?_, fun q hq => ?_, hreleased.trans hreleased'⟩
    · dsimp only
      rw [hrun', List.append_assoc]
    · rcases List.mem_append.1 hq with hq | hq
      · exact hrefused q hq
      · exact (hrefused' q hq).imp_left (hreleased.claims q).1

theorem attempt (hx : Mirrors c k x f) :
    Mirrors c k (attempt x) fun around => Compile.attempt (f around) := by
  intro m
  obtain ⟨refused, hrun, hrefused, hreleased⟩ := hx m
  refine ⟨refused, ?_, hrefused, hreleased⟩
  rw [run_attempt, hrun, outcome_attempt]

theorem mono {k' : List Path} (hk : ∀ q ∈ k', q ∈ k) (hx : Mirrors c k x f) :
    Mirrors c k' x f := by
  intro m
  obtain ⟨refused, hrun, hrefused, hreleased⟩ := hx m
  refine ⟨refused, hrun, fun q hq => (hrefused q hq).imp_right fun h => ?_, hreleased⟩
  rw [List.any_eq_false] at h ⊢
  intro r hr
  refine h r ?_
  rcases List.mem_append.1 hr with hr | hr
  · exact List.mem_append_left _ (hk r hr)
  · exact List.mem_append_right _ hr

end Mirrors

/-! ## Expansions -/

variable {content : Stacked Forest} {content' : List Path → Compile Forest}

theorem splice_mirrors (target : Path) (f : Fragment) (tag : Tag) (children : Forest)
    (h : Mirrors c k content content') :
    Mirrors c k (splice c target f tag children content)
      fun around => c.splice target f tag children (content' around) := by
  unfold splice Compiler.splice
  refine .bind (.ofCompile fun _ => .of_cache_eq (List.prefix_refl _) rfl) fun number => ?_
  show Mirrors c k _ fun around => if hasSlot (f.spliced tag number) = true then _ else _
  dsimp only
  split
  · exact h.bind fun xs => .pure _
  · split
    · exact (Mirrors.report _).bind fun _ => .pure _
    · exact .pure _

variable {v : Visit} {v' : List Path → Compiler.Visit}

theorem instantiate_mirrors (hv : ∀ p, Mirrors c k (v p) fun around => v' around p)
    (folder target : Path) (tag : Tag) (children : Forest) (h : Mirrors c k content content') :
    Mirrors c k (instantiate c v folder target tag children content)
      fun around => c.instantiate (v' around) folder target tag children (content' around) := by
  unfold instantiate Compiler.instantiate
  refine (hv target).attempt.bind fun result => ?_
  rcases result with e | _ | f
  · dsimp only
    split
    · exact (Mirrors.report _).bind fun _ => h.bind fun _ => .pure _
    · exact .throw e
  · exact .pure []
  · exact splice_mirrors target f tag children h

theorem warn_mirrors (o : Option Log.Entry) :
    Mirrors c k (ofCompile (o.forM Compile.report)) fun _ => o.forM Compile.report := by
  rcases o with _ | e
  · exact .ofCompile fun s => .refl s
  · exact .report e

mutual

theorem expandNode_mirrors (hv : ∀ p, Mirrors c k (v p) fun around => v' around p)
    (folder : Path) : ∀ n : Node,
      Mirrors c k (expandNode c v folder n) fun around => c.expandNode (v' around) folder n
  | .element tag children => by
    have hcontent := expand_mirrors hv folder children
    unfold expandNode Compiler.expandNode
    generalize c.targetIn folder tag = found
    cases found with
    | document target => exact instantiate_mirrors hv folder target tag children hcontent
    | plain | noSource | outside =>
      exact (warn_mirrors _).bind fun _ => hcontent.bind fun _ => .pure _
  | .text _ | .comment _ | .doctype _ | .instruction _ | .cdata _ => .pure _

/-- An expansion mirrors what its visits mirror. -/
theorem expand_mirrors (hv : ∀ p, Mirrors c k (v p) fun around => v' around p)
    (folder : Path) : ∀ ns : Forest,
      Mirrors c k (expand c v folder ns) fun around => c.expand (v' around) folder ns
  | [] => .pure []
  | n :: ns => by
    unfold expand Compiler.expand
    exact (expandNode_mirrors hv folder n).bind fun _ =>
      (expand_mirrors hv folder ns).bind fun _ => .pure _

end

/-! ## Visits -/

variable {p : Path} {depth : Nat} {enter : Document → Stacked Forest}

theorem compileFragment_mirrors {enter' : List Path → Document → Compile Forest}
    (he : ∀ d, c.sources.document p = .ok d →
      Mirrors c k (enter d) fun around => enter' (p :: around) d) :
    Mirrors c k (compileFragment c enter p)
      fun around => c.compileFragment (enter' (p :: around)) p := by
  unfold compileFragment Compiler.compileFragment
  refine (Mirrors.report _).bind fun _ => ?_
  rcases hd : c.sources.document p with e | d
  · intro m
    exact ⟨[], by simp [run_bind, outcome_bind], fun q hq => (List.not_mem_nil hq).elim, .refl _⟩
  · exact (he d hd).bind fun _ => .pure _

/-- A claim that was compiled is handed in or given up. -/
theorem run_compileClaimed (m : Machine) :
    (compileClaimed c enter p).run m =
      match (compileFragment c enter p).run m with
      | (.ok f, m') => (.ok f, { m' with progress := { m'.progress with
          cache := if m'.progress.scope.cuts = m.progress.scope.cuts
            then m'.progress.cache.finish p f else m'.progress.cache.abandon p } })
      | (.error e, m') => (.error e, { m' with progress := { m'.progress with
          cache := m'.progress.cache.abandon p } }) := by
  unfold compileClaimed
  simp only [run_bind, run_ofCompile, outcome_cuts, run_attempt]
  rcases (compileFragment c enter p).run m with ⟨e | f, m'⟩
  · rfl
  · by_cases h : m'.progress.scope.cuts = m.progress.scope.cuts
    · simp [run_bind, h, Except.map]
    · simp [run_bind, h, Except.map]

/-- A component that contains itself is left out. -/
theorem run_visit_stack {m : Machine} (hp : m.stack.any (·.same p) = true) :
    (visit c enter p).run m =
      (.ok none, { m with progress := { m.progress with
        log := m.progress.log ++ [⟨"cycle", s!"`{p}` includes itself, substituted nothing", true⟩]
        scope := { m.progress.scope with cuts := m.progress.scope.cuts + 1 } } }) := by
  unfold visit
  rw [run_bind, run_get]
  dsimp only
  rw [if_pos hp]
  rfl

theorem run_visit_claim (hr : c.reuse = true) {m : Machine}
    (hp : m.stack.any (·.same p) = false) :
    (visit c enter p).run m =
      match m.progress.cache.get? p with
      | some (.compiled f) => (.ok (some f), { m with progress := { m.progress with
          log := m.progress.log ++ [⟨"cache", s!"reusing {p}", true⟩] } })
      | some .inProgress =>
        (some <$> compileFragment c enter p).run { m with refused := m.refused ++ [p] }
      | none =>
        (some <$> compileClaimed c enter p).run { m with progress := claimedAt p m.progress } := by
  unfold visit Compiler.claim
  rw [run_bind, run_get]
  dsimp only
  rw [if_neg (by simp [hp]), if_pos hr, run_bind, run_ofCompile, outcome_claim, claimedAt,
    Cache.claim]
  rcases m.progress.cache.get? p with _ | _ | f
  · rfl
  · rfl
  · rfl

theorem visit_mirrors (hr : c.reuse = true)
    (he : ∀ {p d}, c.sources.document p = .ok d →
      Mirrors c [p] (expandDocument c depth d) fun around => c.expandDocument depth (p :: around) d)
    (p : Path) :
    Mirrors c [] (visit c (expandDocument c depth) p)
      fun around => c.visit (c.expandDocument depth) around p := by
  intro m
  by_cases hp : m.stack.any (·.same p) = true
  · rw [run_visit_stack hp, outcome_visit_around hp]
    refine ⟨[], ?_, fun q hq => (List.not_mem_nil hq).elim, ?_⟩
    · rw [List.append_nil]
    · exact .of_cache_eq (List.prefix_append _ _) rfl
  have hp : m.stack.any (·.same p) = false := by simpa using hp
  have hfragment : Mirrors c [p] (compileFragment c (expandDocument c depth) p)
      fun around => c.compileFragment (c.expandDocument depth (p :: around)) p :=
    compileFragment_mirrors fun d hd => he hd
  rw [run_visit_claim hr hp, outcome_visit_claim hr hp]
  rcases hget : m.progress.cache.get? p with _ | _ | f
  · -- The claim is taken, so it is not refused to what is compiled inside.
    obtain ⟨refused, hrun, hrefused, hreleased⟩ :=
      hfragment { m with progress := claimedAt p m.progress }
    have hrefused' : ∀ q ∈ refused, m.progress.cache.get? q = some .inProgress ∧
        ([] ++ m.stack).any (·.same q) = false := by
      intro q hq
      obtain ⟨hclaimed, hout⟩ := hrefused q hq
      rw [List.cons_append, List.any_cons, Bool.or_eq_false_iff] at hout
      rw [get?_claimedAt hget, if_neg (Bool.eq_false_iff.1 hout.1)] at hclaimed
      exact ⟨hclaimed, hout.2⟩
    dsimp only
    rw [run_map, run_compileClaimed, hrun]
    rw [outcome_map, ← claimedAt, outcome_compileClaimed]
    dsimp only at hreleased ⊢
    rcases ho : outcome (c.compileFragment (c.expandDocument depth (p :: m.stack)) p)
      (claimedAt p m.progress) with ⟨e | f, t⟩
    · rw [ho] at hreleased
      exact ⟨refused, rfl, hrefused', hreleased.abandon hget⟩
    · rw [ho] at hreleased
      refine ⟨refused, rfl, hrefused', ?_⟩
      dsimp only
      split
      · rename_i hcuts
        exact hreleased.finish hget ho hcuts
      · exact hreleased.abandon hget
  · -- The claim is refused, and the component is compiled for this page alone.
    obtain ⟨refused, hrun, hrefused, hreleased⟩ :=
      hfragment { m with refused := m.refused ++ [p] }
    refine ⟨p :: refused, ?_, fun q hq => ?_, ?_⟩
    · dsimp only
      rw [run_map, hrun, outcome_map, List.append_assoc]
      rfl
    · rcases List.mem_cons.1 hq with rfl | hq
      · exact ⟨hget, hp⟩
      · obtain ⟨hclaimed, hout⟩ := hrefused q hq
        rw [List.cons_append, List.any_cons, Bool.or_eq_false_iff] at hout
        exact ⟨hclaimed, hout.2⟩
    · dsimp only
      rw [outcome_map]
      exact hreleased
  · refine ⟨[], ?_, fun q hq => (List.not_mem_nil hq).elim, ?_⟩
    · rw [List.append_nil]
    · exact .of_cache_eq (List.prefix_append _ _) rfl

/-! ## Documents -/

/-- The document is on the stack while it is expanded, and not afterwards. -/
theorem run_expandDocument (d : Document) (m : Machine) :
    (expandDocument c (depth + 1) d).run m =
      let o := (expandSource c (visit c (expandDocument c depth)) d.path d.folder d.html).run
        { m with stack := d.path :: m.stack }
      (o.1, { o.2 with stack := o.2.stack.tail }) := by
  rw [expandDocument, run_bind, run_push]
  dsimp only
  rw [run_bind, run_attempt]
  dsimp only
  rw [run_bind, run_pop]
  dsimp only
  rw [run_ofCompile, outcome_except]

theorem expandSource_mirrors {v : Visit} {v' : List Path → Compiler.Visit}
    (hv : ∀ p, Mirrors c k (v p) fun around => v' around p) (path folder : Path) (html : String) :
    Mirrors c k (expandSource c v path folder html)
      fun around => c.expandSource (v' around) path folder html :=
  (Mirrors.except _).bind fun ns => expand_mirrors hv folder ns

theorem expandDocument_mirrors (hr : c.reuse = true) (depth : Nat) :
    ∀ {p : Path} {d : Document}, c.sources.document p = .ok d →
      Mirrors c [p] (expandDocument c depth d)
        fun around => c.expandDocument depth (p :: around) d := by
  induction depth with
  | zero =>
    intro p d hd
    exact .throw _
  | succ depth ih =>
    intro p d hd m
    obtain rfl : d.path = p := Sources.document_path hd
    obtain ⟨refused, hrun, hrefused, hreleased⟩ :=
      expandSource_mirrors (visit_mirrors hr ih) d.path d.folder d.html
        { m with stack := d.path :: m.stack }
    rw [run_expandDocument, hrun]
    exact ⟨refused, rfl, hrefused, hreleased⟩

end Stacked

/-- Compiles the page at a path as if it were inside the documents `outer`. -/
def Compiler.compilePageInside (c : Compiler) (outer : List Path) (p : Path) : Compile Forest :=
  c.compilePageBy (fun around d => c.expandDocument c.depth (around ++ outer) d) p

theorem Compiler.compilePageInside_nil (c : Compiler) (p : Path) :
    c.compilePageInside [] p = c.compilePage p := by
  simp only [compilePageInside, compilePage, List.append_nil]

namespace Stacked

open Compile Compiler

variable {c : Compiler}

theorem finishPage_mirrors {k : List Path} (ns : Forest) :
    Mirrors c k (ofCompile (c.finishPage ns)) fun _ => c.finishPage ns := by
  refine .ofCompile fun s => ?_
  rw [outcome_finishPage]
  split
  · exact .of_cache_eq (List.prefix_refl _) rfl
  · exact .refl s

theorem compilePage_mirrors (hr : c.reuse = true) (p : Path) :
    Mirrors c [] (compilePage c p) fun outer => c.compilePageInside outer p := by
  unfold compilePage compilePageInside compilePageBy
  rcases hd : c.sources.document p with e | d
  · intro m
    exact ⟨[], by simp [run_bind, outcome_bind], fun q hq => (List.not_mem_nil hq).elim, .refl _⟩
  · have hdocument : Mirrors c [] _ _ := (expandDocument_mirrors hr c.depth hd).mono
      fun q hq => (List.not_mem_nil hq).elim
    exact hdocument.bind fun ns => finishPage_mirrors ns

/-- What is left behind when a page is compiled, with a new scope or with the last one, which is
cleared. -/
def next (c : Compiler) (m : Machine) (page : Path × Bool) : Machine :=
  ((compilePage c page.1).run
    { m with progress := { m.progress with scope := nextScope page.2 m.progress.scope } }).2

/-- What is left behind when pages are compiled one after the other. -/
def after (c : Compiler) (pages : List (Path × Bool)) (m : Machine) : Machine :=
  pages.foldl (next c) m

/-- Nothing is claimed or being compiled, and no claim was refused. -/
structure Idle (m : Machine) : Prop where
  stack : m.stack = []
  refused : m.refused = []
  claims : ∀ p, m.progress.cache.get? p ≠ some .inProgress

theorem Idle.next (hr : c.reuse = true) {m : Machine} (h : Idle m) (page : Path × Bool) :
    Idle (next c m page) ∧
      (next c m page).progress = c.next m.progress (.page page.1 page.2) := by
  obtain ⟨stack, refused, s⟩ := m
  obtain ⟨rfl, rfl, hclaims⟩ := h
  obtain ⟨refused, hrun, hrefused, hreleased⟩ := compilePage_mirrors hr page.1
    { progress := { s with scope := nextScope page.2 s.scope } }
  obtain rfl : refused = [] :=
    List.eq_nil_iff_forall_not_mem.2 fun q hq => hclaims q (hrefused q hq).1
  simp only [compilePageInside_nil] at hrun hreleased
  rw [Stacked.next, hrun]
  exact ⟨⟨rfl, rfl, fun q hq => hclaims q ((hreleased.claims q).1 hq)⟩, rfl⟩

theorem Idle.after (hr : c.reuse = true) (pages : List (Path × Bool)) {m : Machine}
    (h : Idle m) : Idle (after c pages m) ∧
      (after c pages m).progress =
        c.after (pages.map fun page => .page page.1 page.2) m.progress := by
  induction pages generalizing m with
  | nil => exact ⟨h, rfl⟩
  | cons page pages ih =>
    obtain ⟨hidle, hnext⟩ := h.next hr page
    obtain ⟨hlast, hafter⟩ := ih hidle
    refine ⟨hlast, ?_⟩
    show (Stacked.after c pages (Stacked.next c m page)).progress = _
    rw [hafter, hnext]
    rfl

/-- The compile of a page leaves the stack as it was and no claim behind, whether it succeeds or
fails, whatever is on the stack and whatever the cache holds; it does what a compile does that is
told the stack. Its claims are refused only for components that were claimed before. So no claim is
ever refused where pages are compiled one after the other by a new compiler. -/
theorem compilePage_releases (r : References) (sources : Sources) (dedupe : Bool) :
    let c : Compiler := ⟨r, sources, true, dedupe⟩
    (∀ (p : Path) (m : Machine), ∃ refused,
      (compilePage c p).run m =
        ((outcome (c.compilePageInside m.stack p) m.progress).1,
          ⟨m.stack, m.refused ++ refused, (outcome (c.compilePageInside m.stack p) m.progress).2⟩) ∧
      (∀ q ∈ refused, m.progress.cache.get? q = some .inProgress) ∧
      c.Released m.progress (outcome (c.compilePageInside m.stack p) m.progress).2) ∧
    (∀ p, c.compilePageInside [] p = c.compilePage p) ∧
    ∀ pages : List (Path × Bool),
      (after c pages {}).refused = [] ∧
        (after c pages {}).progress = c.after (pages.map fun page => .page page.1 page.2) {} := by
  intro c
  refine ⟨fun p m => ?_, c.compilePageInside_nil, fun pages => ?_⟩
  · obtain ⟨refused, hrun, hrefused, hreleased⟩ := compilePage_mirrors (c := c) rfl p m
    exact ⟨refused, hrun, fun q hq => (hrefused q hq).1, hreleased⟩
  · have hidle : Idle {} := ⟨rfl, rfl, fun p hp => by cases hp⟩
    exact (hidle.after (c := c) rfl pages).imp_left Idle.refused

/-- A page of the sample site inside another document, while somebody else holds a component that
the page uses twice. -/
def heldMachine : Machine where
  stack := [⟨"/s/about.html"⟩]
  progress := claimedAt ⟨"/s/c/card.html"⟩ {}

theorem compilePage_releases_sample :
    let c := siteCompiler sampleSite true true
    let m := ((compilePage c ⟨"/s/index.html"⟩).run heldMachine).2
    m.stack = [⟨"/s/about.html"⟩] ∧ m.refused = [⟨"/s/c/card.html"⟩, ⟨"/s/c/card.html"⟩] ∧
      (∀ q ∈ m.refused, heldMachine.progress.cache.get? q = some .inProgress) ∧
      m.progress.cache.get? ⟨"/s/c/card.html"⟩ = some .inProgress ∧
      (after c [(⟨"/s/index.html"⟩, true), (⟨"/s/index.html"⟩, false)] {}).refused = [] := by
  have hlist : ((compilePage (siteCompiler sampleSite true true) ⟨"/s/index.html"⟩).run
      heldMachine).2.refused = [⟨"/s/c/card.html"⟩, ⟨"/s/c/card.html"⟩] := by decide +kernel
  have h := compilePage_releases (siteCompiler sampleSite true true).toReferences
    (siteCompiler sampleSite true true).sources true
  have hc : (⟨(siteCompiler sampleSite true true).toReferences,
    (siteCompiler sampleSite true true).sources, true, true⟩ : Compiler) =
      siteCompiler sampleSite true true := rfl
  simp only [hc] at h
  obtain ⟨refused, hrun, hrefused, hreleased⟩ := h.1 ⟨"/s/index.html"⟩ heldMachine
  dsimp only
  -- From here on the compile is not looked into, so that it is not run once more.
  generalize (compilePage (siteCompiler sampleSite true true) ⟨"/s/index.html"⟩).run
    heldMachine = run at hrun hlist ⊢
  subst hrun
  exact ⟨rfl, hlist, hrefused, (hreleased.claims _).2 rfl, (h.2.2 _).1⟩

end Stacked

end StaticSite

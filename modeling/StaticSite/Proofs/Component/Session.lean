import StaticSite.Html.Writer
import StaticSite.Proofs.Component.Transparency

/-!
# Sessions

A session compiles pages one after the other with a cache that they share, while others claim
components and give them up. `Compiler.answers_reusing` says that every page is answered as it is
without a cache.
-/

namespace StaticSite

open StaticSite.Html

/-- The answer to a page: its text or why there is none, and the components whose scripts it
emits. -/
structure Answer where
  /-- The text of the page. -/
  html : Except CompileError String
  /-- Whether the page emits scripts of a component. -/
  emitted : Path → Bool

/-- The answer that the outcome of a compile gives. -/
def Answer.of (o : Except CompileError Forest × Progress) : Answer :=
  ⟨o.1.map serialize, o.2.scope.scripts.hasEmitted⟩

/-- Outcomes of a page that differ in the numbers of instances only, and in what is not the page. -/
inductive Resembles :
    Except CompileError Forest × Progress → Except CompileError Forest × Progress → Prop where
  | ok {ns ms : Forest} {s t : Progress} (h : Html.Alike (Origin.Alike fun _ _ => True) ns ms)
      (he : s.scope.scripts.hasEmitted = t.scope.scripts.hasEmitted) :
      Resembles (.ok ns, s) (.ok ms, t)
  | error {e : CompileError} {s t : Progress}
      (he : s.scope.scripts.hasEmitted = t.scope.scripts.hasEmitted) :
      Resembles (.error e, s) (.error e, t)

namespace Resembles

variable {o o' o'' : Except CompileError Forest × Progress}

theorem symm (h : Resembles o o') : Resembles o' o := by
  cases h with
  | ok h he =>
    refine .ok (h.symm fun a b hab => ?_) he.symm
    exact ⟨(Path.same_comm b.component a.component).trans hab.component, trivial⟩
  | error he => exact .error he.symm

theorem trans (h : Resembles o o') (h' : Resembles o' o'') : Resembles o o'' := by
  cases h with
  | ok h he =>
    cases h' with
    | ok h' he' =>
      refine .ok (h.trans (fun _ _ _ hab hbd => ?_) h') (he.trans he')
      exact ⟨Path.same_trans hab.component hbd.component, trivial⟩
  | error he =>
    cases h' with
    | error he' => exact .error (he.trans he')

theorem exists_ok (h : Resembles o o') {ms : Forest} (ho : o'.1 = .ok ms) :
    ∃ ns, o.1 = .ok ns ∧ Html.Alike (Origin.Alike fun _ _ => True) ns ms := by
  cases h with
  | ok h _ =>
    cases ho
    exact ⟨_, rfl, h⟩
  | error _ => cases ho

/-- Outcomes that resemble each other give the same answer. -/
theorem answer_eq (h : Resembles o o') : Answer.of o = Answer.of o' := by
  cases h with
  | ok h he =>
    rw [Answer.of, Answer.of, Answer.mk.injEq]
    exact ⟨congrArg Except.ok h.serialize, he⟩
  | error he =>
    rw [Answer.of, Answer.of, Answer.mk.injEq]
    exact ⟨rfl, he⟩

end Resembles

/-- What happens to a compiler. -/
inductive Event where
  /-- Somebody else claims a component. -/
  | claim (p : Path)
  /-- Somebody else gives up a component. -/
  | abandon (p : Path)
  /-- A page is compiled, with a new scope or with the last one, which is cleared. -/
  | page (p : Path) (anew : Bool)

namespace Compiler

open Compile Link

/-- The scope that a page starts with. -/
def nextScope (anew : Bool) (s : PageScope) : PageScope := if anew then {} else s.reset

theorem nextScope_eq (anew : Bool) (s : PageScope) : nextScope anew s = {} := by
  cases anew
  · rfl
  · rfl

/-- What an event leaves behind. -/
def next (c : Compiler) (s : Progress) : Event → Progress
  | .claim p => { s with cache := (s.cache.claim p).2 }
  | .abandon p => { s with cache := s.cache.abandon p }
  | .page p anew => (outcome (c.compilePage p) { s with scope := nextScope anew s.scope }).2

/-- What a session leaves behind. -/
def after (c : Compiler) (events : List Event) (s : Progress) : Progress := events.foldl c.next s

/-- The answer to an event, if it is about a page. -/
def answer? (c : Compiler) (s : Progress) : Event → Option Answer
  | .page p anew =>
    some (.of (outcome (c.compilePage p) { s with scope := nextScope anew s.scope }))
  | _ => none

/-- The answers to the pages of a session. -/
def answers (c : Compiler) : List Event → Progress → List Answer
  | [], _ => []
  | event :: events, s => (c.answer? s event).toList ++ c.answers events (c.next s event)

/-- The answer to a page that is compiled alone. -/
def answer (c : Compiler) (p : Path) : Answer := .of (outcome (c.compilePage p) {})

/-- The pages of a session. -/
def pages (events : List Event) : List Path :=
  events.filterMap fun
    | .page p _ => some p
    | _ => none

variable {c : Compiler} {files : PathMap (Except String String)}

/-- Outcomes that agree resemble each other, if neither used up its depth. -/
theorem resembles_of_agree {reuse : Bool} {P : Pace} {R : Pairing} {x y : Compile Forest}
    {s t : Progress}
    (h : (counting c reuse P).Agree R Pairing.Forests (outcome x s) (outcome y t))
    (hs : (outcome x s).2.scope.scripts = PathMap.empty)
    (ht : (outcome y t).2.scope.scripts = PathMap.empty)
    (hlost : ¬P.Lost (outcome x s).2 (outcome y t).2)
    (hx : ∀ e, (outcome x s).1 = .error e → e.IsOfDocument)
    (hy : ∀ e, (outcome y t).1 = .error e → e.IsOfDocument) :
    Resembles (outcome (x >>= (c.reusing reuse).finishPage) s)
      (outcome (y >>= c.finishPage) t) := by
  have hforget : ∀ {R' : Pairing} {o o' : Origin}, Origin.Alike R'.Numbers o o' →
      Origin.Alike (fun _ _ => True) o o' := fun ho => ⟨ho.component, trivial⟩
  rw [outcome_bind, outcome_bind]
  generalize outcome x s = o at *
  generalize outcome y t = o' at *
  cases h with
  | @ok R' ns ms s' t' _ hst hnm =>
    dsimp only at hs ht hlost ⊢
    obtain ⟨hs', ht'⟩ := P.bounded hst.2 hlost
    rw [outcome_finishPage, outcome_finishPage, hs, ht]
    show Resembles (if c.dedupe then _ else _) _
    split
    · obtain ⟨hkept, hscripts⟩ :=
        hnm.retainFirst (hst.1.separates hs' ht') ScriptRegistry.Alike.empty
      refine .ok (hkept.mono fun _ _ => hforget) (funext fun p => ?_)
      exact hscripts.hasEmitted (Path.same_refl p)
    · refine .ok (Html.Alike.mono (fun _ _ => hforget) hnm) ?_
      rw [hs, ht]
  | error _ _ =>
    refine .error ?_
    rw [hs, ht]
  | lost h => exact absurd h hlost
  | left _ => exact (hx _ rfl).elim
  | right _ => exact (hy _ rfl).elim

theorem finishPage_keeps (x : Compile Forest) (s : Progress) :
    (outcome (x >>= c.finishPage) s).2.cache = (outcome x s).2.cache ∧
      (outcome (x >>= c.finishPage) s).2.scope.instances = (outcome x s).2.scope.instances := by
  rw [outcome_bind]
  rcases outcome x s with ⟨e | ns, t⟩
  · exact ⟨rfl, rfl⟩
  · dsimp only
    rw [outcome_finishPage]
    split
    · exact ⟨rfl, rfl⟩
    · exact ⟨rfl, rfl⟩

/-- The expansion of a settled page does not use up the depth either when it is unrolled. -/
theorem expandKnown_error {m : Nat} {p : Path} (hp : c.Settled (m + 1) p) {d : Document}
    (hd : c.sources.document p = .ok d) {e : CompileError}
    (he : (outcome (c.expandKnown (c.unroll m) d) (noted p {})).1 = .error e) :
    e.IsOfDocument := by
  refine isOfDocument_of_ne fun q hq => hp q ?_
  rw [unroll, outcome_compileFragment, hd]
  dsimp only
  rw [outcome_map, he, hq]
  rfl

theorem agree_holds {reuse : Bool} {P : Pace} {R : Pairing}
    {o o' : Except CompileError Forest × Progress}
    (h : (counting c reuse P).Agree R Pairing.Forests o o') (hlost : ¬P.Lost o.2 o'.2)
    (ho : ∀ e, o.1 = .error e → e.IsOfDocument) (ho' : ∀ e, o'.1 = .error e → e.IsOfDocument) :
    P.Holds o.2 o'.2 := by
  cases h with
  | ok _ hst _ => exact hst.2
  | error _ hst => exact hst.2
  | lost h => exact absurd h hlost
  | left _ => exact (ho _ rfl).elim
  | right _ => exact (ho' _ rfl).elim

section Page

variable (hc : c.sources = .ofFiles files) {p : Path} {d : Document}
  (hd : c.sources.document p = .ok d) {s : Progress} (hs : c.Serves s.cache) (hscope : s.scope = {})

include hc hd hs hscope

/-- A settled page is compiled as it is when its components are unrolled. -/
theorem settled_page {m : Nat} (hm : ¬c.Settled m p) (hsettled : c.Settled (m + 1) p)
    (reuse : Bool)
    (hlost : (outcome (c.expandKnown (c.unroll m) d) (noted p {})).2.scope.instances < UInt32.size ∨
      reuse = false ∧
        (outcome ((c.reusing reuse).expandDocument c.depth [p] d) s).2.scope.instances <
          UInt32.size) :
    Resembles (outcome ((c.reusing reuse).expandDocument c.depth [p] d >>=
        (c.reusing reuse).finishPage) s)
      (outcome (c.expandKnown (c.unroll m) d >>= c.finishPage) (noted p {})) ∧
    c.Keeps reuse 0 0 (outcome ((c.reusing reuse).expandDocument c.depth [p] d) s).2
      (outcome (c.expandKnown (c.unroll m) d) (noted p {})).2 := by
  have haround : ∀ q ∈ [p], ¬c.Settled m q := by simpa using hm
  have h := expandDocument_settled hc c.depth reuse 0 0 haround d (fun _ _ => False) s
    (noted p {}) ⟨Pairing.fits_empty _ _, hs, by rw [hscope], Nat.le_of_eq (by rw [hscope]; rfl),
      fun _ => by rw [hscope]; rfl⟩
  have hlost' : ¬(Pace.settled c reuse 0 0).Lost
      (outcome ((c.reusing reuse).expandDocument c.depth [p] d) s).2
      (outcome (c.expandKnown (c.unroll m) d) (noted p {})).2 := by
    rintro ⟨hl, hl'⟩
    rcases hlost with h | ⟨hr, h⟩
    · rw [Nat.zero_add] at hl
      exact Nat.not_le_of_lt h hl
    · exact Nat.not_le_of_lt h (hl' hr)
  have hx := fun e => expandDocument_error (c := c.reusing reuse) (e := e) hc hd (s := s)
  have hz := fun e => expandKnown_error (e := e) hsettled hd
  refine ⟨resembles_of_agree h ?_ ?_ hlost' hx hz, agree_holds h hlost' hx hz⟩
  · rw [(expandDocument_extending _ _ _ s).scripts_eq, hscope]
  · exact (expandSource_extending (revisit_extending _) _ _ _ _).scripts_eq

variable (hr : c.reuse = false)
  (hlt : (outcome (c.expandDocument c.depth [p] d) {}).2.scope.instances < UInt32.size)

include hr hlt

/-- A settled page is compared with the page alone through what it unrolls to. -/
theorem settled_page_shared (hp : ¬c.Unsettled p) (reuse : Bool) :
    Resembles (outcome ((c.reusing reuse).expandDocument c.depth [p] d >>=
        (c.reusing reuse).finishPage) s)
      (outcome (c.expandDocument c.depth [p] d >>= c.finishPage) {}) ∧
    c.Serves (outcome ((c.reusing reuse).expandDocument c.depth [p] d) s).2.cache := by
  obtain ⟨n, hn⟩ := not_forall_not.1 hp
  obtain ⟨m, -, hm, hunroll⟩ := hn.exists_first
  have hsettled : c.Settled (m + 1) p := by
    rw [Settled, ← hunroll]
    exact hn
  have halone := settled_page (s := {}) hc hd serves_empty rfl hm hsettled false
  rw [reusing_eq hr] at halone
  obtain ⟨hpage, hkeeps⟩ := halone (.inr ⟨rfl, hlt⟩)
  rw [hkeeps.instances_eq rfl, Nat.zero_add] at hlt
  obtain ⟨hpage', hkeeps'⟩ := settled_page hc hd hs hscope hm hsettled reuse (.inl hlt)
  exact ⟨hpage'.trans hpage.symm, hkeeps'.serves⟩

/-- A page that contains itself is compiled side by side with the page alone. -/
theorem unsettled_page_shared (hp : c.Unsettled p) (reuse : Bool) :
    Resembles (outcome ((c.reusing reuse).expandDocument c.depth [p] d >>=
        (c.reusing reuse).finishPage) s)
      (outcome (c.expandDocument c.depth [p] d >>= c.finishPage) {}) ∧
    c.Serves (outcome ((c.reusing reuse).expandDocument c.depth [p] d) s).2.cache := by
  have hst : c.Shares s {} :=
    ⟨hs, serves_empty, by rw [hscope], Nat.le_of_eq (by rw [hscope])⟩
  have h := expandDocument_shared hc hr reuse c.depth [p] d (fun _ _ => False)
    (by simpa using hp) s {} ⟨Pairing.fits_empty _ _, hst⟩
  have hlost : ¬(Pace.shared c).Lost
      (outcome ((c.reusing reuse).expandDocument c.depth [p] d) s).2
      (outcome (c.expandDocument c.depth [p] d) {}).2 := Nat.not_le_of_lt hlt
  have hx := fun e => expandDocument_error (c := c.reusing reuse) (e := e) hc hd (s := s)
  have hy := fun e => expandDocument_error (e := e) hc hd (s := {})
  refine ⟨resembles_of_agree h ?_ ?_ hlost hx hy, (agree_holds h hlost hx hy).serves⟩
  · rw [(expandDocument_extending _ _ _ s).scripts_eq, hscope]
  · rw [(expandDocument_extending _ _ _ {}).scripts_eq]

end Page

/-- A page that may be served is compiled as it is alone, and the cache goes on serving only what
components unroll to. -/
theorem page_shared (hc : c.sources = .ofFiles files) (hr : c.reuse = false) (reuse : Bool)
    {p : Path} {s : Progress} (hs : c.Serves s.cache) (hscope : s.scope = {})
    (hlt : (outcome (c.compilePage p) {}).2.scope.instances < UInt32.size) :
    Resembles (outcome ((c.reusing reuse).compilePage p) s) (outcome (c.compilePage p) {}) ∧
      c.Serves (outcome ((c.reusing reuse).compilePage p) s).2.cache := by
  have hsources : (c.reusing reuse).sources = c.sources := rfl
  unfold compilePage at hlt ⊢
  rw [outcome_compilePageBy] at hlt ⊢
  rw [outcome_compilePageBy, hsources]
  rcases hd : c.sources.document p with e | d
  · dsimp only
    refine ⟨.error ?_, hs⟩
    rw [hscope]
  · rw [hd] at hlt
    dsimp only at hlt ⊢
    rw [(finishPage_keeps _ _).2] at hlt
    rw [(finishPage_keeps _ _).1]
    by_cases hp : c.Unsettled p
    · exact unsettled_page_shared hc hd hs hscope hr hlt hp reuse
    · exact settled_page_shared hc hd hs hscope hr hlt hp reuse

/-- The cache serves only what components unroll to, whatever happens to a compiler. -/
theorem Serves.next (hc : c.sources = .ofFiles files) (hr : c.reuse = false) (reuse : Bool)
    {s : Progress} (hs : c.Serves s.cache) {event : Event}
    (hlt : ∀ p ∈ pages [event], (outcome (c.compilePage p) {}).2.scope.instances < UInt32.size) :
    c.Serves ((c.reusing reuse).next s event).cache := by
  rcases event with p | p | ⟨p, anew⟩
  · exact hs.claim p
  · exact hs.abandon p
  · have hp := hlt p (List.mem_singleton.2 rfl)
    exact (page_shared (s := { s with scope := nextScope anew s.scope }) hc hr reuse hs
      (nextScope_eq anew s.scope) hp).2

theorem pages_cons (event : Event) (events : List Event) :
    pages (event :: events) = pages [event] ++ pages events := by
  rcases event with p | p | ⟨p, anew⟩
  · rfl
  · rfl
  · rfl

theorem Serves.after (hc : c.sources = .ofFiles files) (hr : c.reuse = false) (reuse : Bool)
    {events : List Event} {s : Progress} (hs : c.Serves s.cache)
    (hlt : ∀ p ∈ pages events, (outcome (c.compilePage p) {}).2.scope.instances < UInt32.size) :
    c.Serves ((c.reusing reuse).after events s).cache := by
  induction events generalizing s with
  | nil => exact hs
  | cons event events ih =>
    rw [pages_cons, List.forall_mem_append] at hlt
    exact ih (hs.next hc hr reuse hlt.1) hlt.2

/-- Every page of a session is answered as it is alone, whatever was compiled before, and whatever
others claim or give up in between. -/
theorem answers_eq (hc : c.sources = .ofFiles files) (hr : c.reuse = false) (reuse : Bool)
    {events : List Event} {s : Progress} (hs : c.Serves s.cache)
    (hlt : ∀ p ∈ pages events, (outcome (c.compilePage p) {}).2.scope.instances < UInt32.size) :
    (c.reusing reuse).answers events s = (pages events).map c.answer := by
  induction events generalizing s with
  | nil => rfl
  | cons event events ih =>
    rw [pages_cons, List.forall_mem_append] at hlt
    rw [answers, pages_cons, List.map_append, ih (hs.next hc hr reuse hlt.1) hlt.2]
    congr 1
    rcases event with p | p | ⟨p, anew⟩
    · rfl
    · rfl
    · have hp := hlt.1 p (List.mem_singleton.2 rfl)
      have hpage := page_shared (s := { s with scope := nextScope anew s.scope }) hc hr reuse hs
        (nextScope_eq anew s.scope) hp
      exact congrArg (fun a => [a]) hpage.1.answer_eq

/-- The outcome of a page that is compiled after a session. -/
def pageAfter (c : Compiler) (events : List Event) (p : Path) :
    Except CompileError Forest × Progress :=
  outcome (c.compilePage p) { c.after events {} with scope := {} }

/-- A page that is compiled after a session resembles the page that is compiled alone, and without a
cache. -/
theorem pageAfter_resembles (r : References) (files : PathMap (Except String String))
    (dedupe : Bool) {events : List Event} {p : Path}
    (hlt : ∀ q ∈ p :: pages events,
      (pageAfter ⟨r, .ofFiles files, false, dedupe⟩ [] q).2.scope.instances < UInt32.size) :
    Resembles (pageAfter ⟨r, .ofFiles files, true, dedupe⟩ events p)
      (pageAfter ⟨r, .ofFiles files, false, dedupe⟩ [] p) := by
  obtain ⟨hp, hevents⟩ := List.forall_mem_cons.1 hlt
  have hserves := serves_empty.after (c := ⟨r, .ofFiles files, false, dedupe⟩) (s := {}) rfl rfl
    true hevents
  exact (page_shared (c := ⟨r, .ofFiles files, false, dedupe⟩)
    (s := { after ⟨r, .ofFiles files, true, dedupe⟩ events {} with scope := {} })
    rfl rfl true hserves rfl hp).1

/-- The cache is transparent: a session that may be served from the cache gives the answers of one
that never is, as long as no page splices in 2³² instances. -/
theorem answers_reusing (r : References) (files : PathMap (Except String String)) (dedupe : Bool)
    (events : List Event)
    (hlt : ∀ p ∈ pages events,
      (outcome (compilePage ⟨r, .ofFiles files, false, dedupe⟩ p) {}).2.scope.instances <
        UInt32.size) :
    answers ⟨r, .ofFiles files, true, dedupe⟩ events {} =
      answers ⟨r, .ofFiles files, false, dedupe⟩ events {} := by
  have hshared := answers_eq (c := ⟨r, .ofFiles files, false, dedupe⟩) (s := {}) rfl rfl true
    serves_empty hlt
  have halone := answers_eq (c := ⟨r, .ofFiles files, false, dedupe⟩) (s := {}) rfl rfl false
    serves_empty hlt
  exact hshared.trans halone.symm

/-- A site with a component that is used twice, one that contains itself, and a missing one. -/
def sampleSite : PathMap (Except String String) :=
  ⟨[(⟨"/s/index.html"⟩,
      .ok "<x-card>a</x-card><x-card></x-card><x-loop></x-loop><x-none></x-none>"),
    (⟨"/s/c/card.html"⟩, .ok "<slot></slot><script>card()</script>"),
    (⟨"/s/c/loop.html"⟩, .ok "<i><x-loop></x-loop></i>")]⟩

/-- A session in which another claimant holds a component for a while. -/
def sampleSession : List Event :=
  [.claim ⟨"/s/c/loop.html"⟩, .page ⟨"/s/index.html"⟩ true, .abandon ⟨"/s/c/loop.html"⟩,
    .page ⟨"/s/index.html"⟩ false]

theorem answers_reusing_sample :
    (∀ p ∈ pages sampleSession,
      (outcome ((siteCompiler sampleSite false true).compilePage p) {}).2.scope.instances <
        UInt32.size) ∧
      (siteCompiler sampleSite true true).answers sampleSession {} =
        (siteCompiler sampleSite false true).answers sampleSession {} := by
  have hlt : ∀ p ∈ pages sampleSession,
      (outcome ((siteCompiler sampleSite false true).compilePage p) {}).2.scope.instances <
        UInt32.size := by
    decide +kernel
  exact ⟨hlt, answers_reusing _ _ _ _ hlt⟩

end Compiler

end StaticSite

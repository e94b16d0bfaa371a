import Mathlib.Data.Finset.Card
import StaticSite.Proofs.Component.Serving

/-!
# Who holds a component

Clients share a cache. Each of them claims components, and hands in or gives up only what it holds.
Whatever the clients do, their requests reach the cache one after the other, in some order
(`Cache.Run`).

What happened decides what the cache has at a path (`Cache.Custody`): the path is held by one
client, or it was handed in by one client and once, or the cache has nothing there.
`Cache.Run.custody_safe` reads off it what every client can rely on.
-/

namespace StaticSite

namespace Cache

/-! ## The size of a cache -/

/-- What an entry, if there is one, adds to the size of a cache. -/
def weight (e : Option CacheEntry) : Nat := (e.bind CacheEntry.fragment?).toList.length

/-- The size of a cache with the given entries. -/
def sizeIn (es : List (Path × CacheEntry)) : Nat := (es.filterMap (·.2.fragment?)).length

theorem sizeIn_cons (e : Path × CacheEntry) (es : List (Path × CacheEntry)) :
    sizeIn (e :: es) = weight (some e.2) + sizeIn es := by
  rw [sizeIn, List.filterMap_cons, weight, sizeIn, Option.bind_some]
  rcases e.2.fragment? with _ | f
  · exact (Nat.zero_add _).symm
  · exact Nat.add_comm _ _

/-- A new entry takes the place of the old one. -/
theorem size_insert (k : Cache) (p : Path) (e : CacheEntry) :
    size (PathMap.insert k p e) + weight (k.get? p) = k.size + weight (some e) := by
  obtain ⟨es⟩ := k
  show sizeIn (PathMap.set p e es) + weight (PathMap.find? p es) = sizeIn es + weight (some e)
  induction es with
  | nil => exact Nat.add_comm _ _
  | cons x es ih =>
    rw [PathMap.set, PathMap.find?]
    split
    · rw [sizeIn_cons, sizeIn_cons]
      dsimp only
      omega
    · rw [sizeIn_cons, sizeIn_cons]
      omega

/-- Where keys are different, only the entry of the path is removed. -/
theorem size_erase {k : Cache} (h : Path.Distinct k.keys) (p : Path) :
    size (PathMap.erase k p) + weight (k.get? p) = k.size := by
  obtain ⟨es⟩ := k
  change Path.Distinct (es.map (·.1)) at h
  show sizeIn (es.filter fun x => !x.1.same p) + weight (PathMap.find? p es) = sizeIn es
  induction es with
  | nil => rfl
  | cons x es ih =>
    obtain ⟨hx, hes⟩ := List.pairwise_cons.1 h
    rw [PathMap.find?, sizeIn_cons]
    split
    · rename_i hp
      have hkept : es.filter (fun y => !y.1.same p) = es := by
        refine List.filter_eq_self.2 fun y hy => ?_
        have hxy := hx y.1 (List.mem_map.2 ⟨y, hy, rfl⟩)
        rw [Path.same_congr hp] at hxy
        rw [hxy]
        rfl
      rw [List.filter_cons_of_neg (by simp [hp]), hkept, Nat.add_comm]
    · rename_i hp
      have := ih hes
      rw [List.filter_cons_of_pos (by simpa using hp), sizeIn_cons]
      omega

/-! ## Runs -/

/-- What a client has to do with a cache. -/
inductive Exchange (κ : Type) where
  /-- The client claims a component, and is answered. -/
  | claim (client : κ) (p : Path) (answer : Claim)
  /-- The client hands a component in. -/
  | finish (client : κ) (p : Path) (f : Fragment)
  /-- The client gives a claim up. -/
  | abandon (client : κ) (p : Path)

variable {κ : Type}

/-- The component belongs to the client, after the exchanges that are listed with the last one
first: the client was answered so, and has neither handed the component in nor given it up since. -/
def Owns (client : κ) (p : Path) : List (Exchange κ) → Prop
  | [] => False
  | .claim a q answer :: h =>
    (a = client ∧ q.same p = true ∧ answer = .claimed) ∨ Owns client p h
  | .finish a q _ :: h | .abandon a q :: h => ¬(a = client ∧ q.same p = true) ∧ Owns client p h

/-- The components that were handed in, the last one first. -/
def handedIn (h : List (Exchange κ)) : List Path :=
  h.filterMap fun
    | .finish _ p _ => some p
    | _ => none

/-- The exchanges of any clients with an empty cache, the last one first, and what the cache holds
then. A client hands in and gives up only what belongs to it. -/
inductive Run : List (Exchange κ) → Cache → Prop where
  | start : Run [] .empty
  | claim {h : List (Exchange κ)} {k : Cache} (hr : Run h k) (a : κ) (p : Path) :
      Run (.claim a p (k.claim p).1 :: h) (k.claim p).2
  | finish {h : List (Exchange κ)} {k : Cache} (hr : Run h k) {a : κ} {p : Path}
      (ha : Owns a p h) (f : Fragment) : Run (.finish a p f :: h) (k.finish p f)
  | abandon {h : List (Exchange κ)} {k : Cache} (hr : Run h k) {a : κ} {p : Path}
      (ha : Owns a p h) : Run (.abandon a p :: h) (k.abandon p)

variable {h : List (Exchange κ)} {k : Cache} {a b : κ} {p q : Path} {f : Fragment}

theorem mem_handedIn : p ∈ handedIn h ↔ ∃ a f, .finish a p f ∈ h := by
  rw [handedIn, List.mem_filterMap]
  constructor
  · rintro ⟨x, hx, hp⟩
    cases x with
    | finish a q f =>
      cases hp
      exact ⟨a, f, hx⟩
    | claim | abandon => cases hp
  · rintro ⟨a, f, hf⟩
    exact ⟨_, hf, rfl⟩

theorem Owns.congr (hp : p.same q = true) (ha : Owns a p h) : Owns a q h := by
  induction h with
  | nil => exact ha
  | cons x h ih =>
    have hsame (r : Path) : r.same p = r.same q := Path.same_congr hp r
    cases x with
    | claim b r answer =>
      rw [Owns, ← hsame]
      exact ha.imp_right ih
    | finish b r g =>
      rw [Owns, ← hsame]
      exact ha.imp_right ih
    | abandon b r =>
      rw [Owns, ← hsame]
      exact ha.imp_right ih

/-- What is at each path of a cache after the exchanges. -/
structure Custody (h : List (Exchange κ)) (k : Cache) : Prop where
  /-- No component belongs to two clients. -/
  sole : ∀ a b p, Owns a p h → Owns b p h → a = b
  /-- What is being compiled belongs to somebody. -/
  held : ∀ p, k.get? p = some .inProgress ↔ ∃ a, Owns a p h
  /-- What was compiled was handed in. -/
  kept : ∀ p f, k.get? p = some (.compiled f) ↔ ∃ a q, .finish a q f ∈ h ∧ q.same p = true
  /-- No component was handed in twice. -/
  once : Path.Distinct (handedIn h)
  keys : Path.Distinct k.keys
  size : k.size = (handedIn h).length

namespace Custody

theorem start : Custody ([] : List (Exchange κ)) .empty where
  sole _ _ _ ha := ha.elim
  held _ := ⟨nofun, fun ⟨_, ha⟩ => ha.elim⟩
  kept _ _ := ⟨nofun, fun ⟨_, _, hf, _⟩ => absurd hf List.not_mem_nil⟩
  once := .nil
  keys := .nil
  size := rfl

/-- A claim that is answered without taking the component changes nothing. -/
theorem refused (hc : Custody h k) {answer : Claim} (hanswer : answer ≠ .claimed) :
    Custody (.claim a p answer :: h) k where
  sole b c q hb hc' :=
    hc.sole b c q (hb.resolve_left fun h => hanswer h.2.2) (hc'.resolve_left fun h => hanswer h.2.2)
  held q := by
    rw [hc.held]
    refine exists_congr fun b => ?_
    exact ⟨.inr, fun hb => hb.resolve_left fun h => hanswer h.2.2⟩
  kept q f := by simp [hc.kept]
  once := hc.once
  keys := hc.keys
  size := hc.size

/-- A claim on a path at which the cache has nothing takes the component. -/
theorem taken (hc : Custody h k) (hp : k.get? p = none) :
    Custody (.claim a p .claimed :: h) (PathMap.insert k p .inProgress) where
  sole b c q hb hc' := by
    have hfree (hpq : p.same q = true) (d : κ) : ¬Owns d q h := fun hd => by
      have := (hc.held q).2 ⟨d, hd⟩
      rw [← PathMap.get?_congr hpq, hp] at this
      cases this
    rcases hb with ⟨rfl, hpq, -⟩ | hb
    · rcases hc' with ⟨rfl, -, -⟩ | hc'
      · rfl
      · exact absurd hc' (hfree hpq c)
    · rcases hc' with ⟨rfl, hpq, -⟩ | hc'
      · exact absurd hb (hfree hpq b)
      · exact hc.sole b c q hb hc'
  held q := by
    rw [PathMap.get?_insert]
    split
    · rename_i hpq
      exact ⟨fun _ => ⟨a, .inl ⟨rfl, hpq, rfl⟩⟩, fun _ => rfl⟩
    · rename_i hpq
      rw [hc.held]
      refine exists_congr fun b => ?_
      exact ⟨.inr, fun hb => hb.resolve_left fun h => hpq h.2.1⟩
  kept q f := by
    have hmem : ∀ b r, Exchange.finish b r f ∈ Exchange.claim a p Claim.claimed :: h ↔
        .finish b r f ∈ h := by simp
    simp only [hmem]
    rw [PathMap.get?_insert, ← hc.kept]
    split
    · rename_i hpq
      rw [← PathMap.get?_congr hpq, hp]
      exact ⟨nofun, nofun⟩
    · rfl
  once := hc.once
  keys := PathMap.distinct_keys_insert hc.keys _ _
  size := by
    have := size_insert k p .inProgress
    rw [hp] at this
    exact this.trans hc.size

theorem claim (hc : Custody h k) (a : κ) (p : Path) :
    Custody (.claim a p (k.claim p).1 :: h) (k.claim p).2 := by
  rw [Cache.claim]
  rcases hp : k.get? p with _ | _ | f
  · exact hc.taken hp
  · exact hc.refused fun h => by cases h
  · exact hc.refused fun h => by cases h

/-- After a client let go of a component, nobody has it, and everything else is as before. -/
theorem held_of_release (hc : Custody h k) (ha : Owns a p h) {k' : Cache} {e : Option CacheEntry}
    (hk : ∀ q, k'.get? q = if p.same q then e else k.get? q) (he : e ≠ some .inProgress)
    (q : Path) :
    k'.get? q = some .inProgress ↔ ∃ b, ¬(a = b ∧ p.same q = true) ∧ Owns b q h := by
  rw [hk]
  split
  · rename_i hpq
    refine ⟨fun h => absurd h he, fun ⟨b, hb, hbq⟩ => ?_⟩
    exact absurd ⟨hc.sole a b q (ha.congr hpq) hbq, hpq⟩ hb
  · rename_i hpq
    rw [hc.held]
    exact exists_congr fun b => ⟨fun hb => ⟨fun h => hpq h.2, hb⟩, And.right⟩

theorem finish (hc : Custody h k) (ha : Owns a p h) (f : Fragment) :
    Custody (.finish a p f :: h) (k.finish p f) := by
  have hp : k.get? p = some .inProgress := (hc.held p).2 ⟨a, ha⟩
  have hget : ∀ q, (k.finish p f).get? q = if p.same q then some (.compiled f) else k.get? q :=
    fun q => PathMap.get?_insert k p q _
  have hnew {b : κ} {q : Path} {g : Fragment} (hb : .finish b q g ∈ h) : q.same p = false := by
    rw [Bool.eq_false_iff]
    intro hqp
    have := (hc.kept p g).2 ⟨b, q, hb, hqp⟩
    rw [hp] at this
    cases this
  refine ⟨fun b c q hb hc' => hc.sole b c q hb.2 hc'.2, ?_, fun q g => ?_, ?_,
    PathMap.distinct_keys_insert hc.keys _ _, ?_⟩
  · exact hc.held_of_release ha hget fun h => by cases h
  · rw [hget]
    split
    · rename_i hpq
      constructor
      · rintro hg
        cases hg
        exact ⟨a, p, List.mem_cons_self .., hpq⟩
      · rintro ⟨b, r, hb, hrq⟩
        rcases List.mem_cons.1 hb with hb | hb
        · cases hb
          rfl
        · have := hnew hb
          rw [Path.same_congr hpq, hrq] at this
          cases this
    · rename_i hpq
      rw [hc.kept]
      constructor
      · rintro ⟨b, r, hb, hrq⟩
        exact ⟨b, r, List.mem_cons_of_mem _ hb, hrq⟩
      · rintro ⟨b, r, hb, hrq⟩
        rcases List.mem_cons.1 hb with hb | hb
        · cases hb
          exact absurd hrq hpq
        · exact ⟨b, r, hb, hrq⟩
  · refine List.pairwise_cons.2 ⟨fun q hq => ?_, hc.once⟩
    obtain ⟨b, g, hb⟩ := mem_handedIn.1 hq
    exact hnew hb
  · have := size_insert k p (.compiled f)
    rw [hp] at this
    exact this.trans (congrArg (· + 1) hc.size)

theorem abandon (hc : Custody h k) (ha : Owns a p h) :
    Custody (.abandon a p :: h) (k.abandon p) := by
  have hp : k.get? p = some .inProgress := (hc.held p).2 ⟨a, ha⟩
  have habandon : k.abandon p = PathMap.erase k p := by rw [Cache.abandon, hp]
  have hget : ∀ q, (k.abandon p).get? q = if p.same q then none else k.get? q := by
    rw [habandon]
    exact PathMap.get?_erase _ _
  refine ⟨fun b c q hb hc' => hc.sole b c q hb.2 hc'.2, ?_, fun q f => ?_, hc.once, ?_, ?_⟩
  · exact hc.held_of_release ha hget fun h => by cases h
  · have hmem : ∀ b r, Exchange.finish b r f ∈ Exchange.abandon a p :: h ↔ .finish b r f ∈ h := by
      simp
    simp only [hmem]
    rw [hget, ← hc.kept]
    split
    · rename_i hpq
      rw [← PathMap.get?_congr hpq, hp]
      exact ⟨nofun, nofun⟩
    · rfl
  · rw [habandon]
    exact PathMap.distinct_keys_erase hc.keys p
  · have := size_erase hc.keys p
    rw [hp] at this
    rw [habandon]
    exact this.trans hc.size

/-- A component can be claimed if and only if it belongs to nobody and was not handed in. -/
theorem claim_eq_claimed_iff (hc : Custody h k) :
    (k.claim q).1 = .claimed ↔
      (∀ a, ¬Owns a q h) ∧ ∀ p ∈ handedIn h, p.same q = false := by
  rw [Cache.claim]
  rcases hq : k.get? q with _ | _ | f
  · refine iff_of_true rfl ⟨fun a ha => ?_, fun p hp => ?_⟩
    · have := (hc.held q).2 ⟨a, ha⟩
      rw [hq] at this
      cases this
    · rw [Bool.eq_false_iff]
      intro hpq
      obtain ⟨a, f, hf⟩ := mem_handedIn.1 hp
      have := (hc.kept q f).2 ⟨a, p, hf, hpq⟩
      rw [hq] at this
      cases this
  · obtain ⟨a, ha⟩ := (hc.held q).1 hq
    exact iff_of_false (by simp) fun h => h.1 a ha
  · obtain ⟨a, p, hf, hpq⟩ := (hc.kept q f).1 hq
    refine iff_of_false (by simp) fun h => ?_
    rw [h.2 p (mem_handedIn.2 ⟨a, f, hf⟩)] at hpq
    cases hpq

/-- A component that was handed in is served. -/
theorem claim_finished (hc : Custody h k) (hf : .finish a p f ∈ h) (hpq : p.same q = true) :
    (k.claim q).1 = .cached f := by
  rw [Cache.claim, (hc.kept q f).2 ⟨a, p, hf, hpq⟩]

end Custody

namespace Run

theorem custody (hr : Run h k) : Custody h k := by
  induction hr with
  | start => exact .start
  | claim _ a p ih => exact ih.claim a p
  | finish _ ha f ih => exact ih.finish ha f
  | abandon _ ha ih => exact ih.abandon ha

variable {later : List (Exchange κ)}

/-- What came before some exchanges is a run too. -/
theorem earlier (hr : Run (later ++ h) k) : ∃ k', Run h k' := by
  induction later generalizing k with
  | nil => exact ⟨k, hr⟩
  | cons x later ih =>
    cases hr with
    | claim hr => exact ih hr
    | finish hr => exact ih hr
    | abandon hr => exact ih hr

/-- After a component was handed in, its claims were answered with it. -/
theorem claim_after_finish (hr : Run (later ++ .finish a p f :: h) k) (hpq : p.same q = true)
    {answer : Claim} (hb : .claim b q answer ∈ later) : answer = .cached f := by
  obtain ⟨after, before, rfl⟩ := List.append_of_mem hb
  rw [List.append_assoc] at hr
  obtain ⟨k', hr'⟩ := hr.earlier
  cases hr' with
  | claim hr' =>
    exact hr'.custody.claim_finished
      (List.mem_append_right _ (List.mem_cons_self ..)) hpq

/-- After a component was given up, the cache has nothing at its path until the next claim. -/
theorem get?_after_abandon (hr : Run (later ++ .abandon a p :: h) k)
    (hlater : ∀ b q answer, .claim b q answer ∈ later → q.same p = false) : k.get? p = none := by
  induction later generalizing k with
  | nil =>
    cases hr with
    | abandon hr ha =>
      rw [Cache.abandon, (hr.custody.held p).2 ⟨a, ha⟩]
      rw [PathMap.get?_erase, if_pos (Path.same_refl p)]
  | cons x later ih =>
    have hlater' : ∀ b q answer, .claim b q answer ∈ later → q.same p = false :=
      fun b q answer hb => hlater b q answer (List.mem_cons_of_mem _ hb)
    -- Nobody owns the component, so an exchange with an owner is about another one.
    have hother {k : Cache} (hr : Run (later ++ .abandon a p :: h) k) {b : κ} {q : Path}
        (hb : Owns b q (later ++ .abandon a p :: h)) : ¬q.same p = true := fun hqp => by
      have := (hr.custody.held p).2 ⟨b, hb.congr hqp⟩
      rw [ih hr hlater'] at this
      cases this
    cases hr with
    | @claim _ k hr b q =>
      have hqp : q.same p = false := hlater b q _ (List.mem_cons_self ..)
      rw [Cache.claim]
      split
      · exact ih hr hlater'
      · exact ih hr hlater'
      · rw [PathMap.get?_insert, if_neg (by simp [hqp])]
        exact ih hr hlater'
    | finish hr hb g =>
      rw [Cache.finish, PathMap.get?_insert, if_neg (hother hr hb)]
      exact ih hr hlater'
    | abandon hr hb =>
      rw [Cache.abandon, (hr.custody.held _).2 ⟨_, hb⟩, PathMap.get?_erase,
        if_neg (hother hr hb)]
      exact ih hr hlater'

/-- Whatever any number of clients do, in whatever order: no two of them ever own the same
component, each component is handed in once at most, and it is served from then on. One that was
given up belongs to the next client that claims it, and so does every other one that belongs to
nobody and was not handed in. The size of the cache is the number of the components that were. -/
theorem custody_safe (hr : Run h k) :
    (∀ a b p q, Owns a p h → Owns b q h → p.same q = true → a = b) ∧
    Path.Distinct (handedIn h) ∧
    (∀ later a p f earlier, h = later ++ .finish a p f :: earlier → ∀ b q answer,
      p.same q = true → .claim b q answer ∈ later → answer = .cached f) ∧
    (∀ later a p earlier, h = later ++ .abandon a p :: earlier →
      (∀ b q answer, .claim b q answer ∈ later → q.same p = false) →
        ∀ q, p.same q = true → (k.claim q).1 = .claimed) ∧
    (∀ q, (k.claim q).1 = .claimed ↔
      (∀ a, ¬Owns a q h) ∧ ∀ p ∈ handedIn h, p.same q = false) ∧
    k.size = ((handedIn h).map Path.components).toFinset.card := by
  have hc := hr.custody
  refine ⟨fun a b p q ha hb hpq => ?_, hc.once, ?_, ?_, fun q => hc.claim_eq_claimed_iff, ?_⟩
  · exact hc.sole a b q (ha.congr hpq) hb
  · rintro later a p f earlier rfl b q answer hpq hb
    exact hr.claim_after_finish hpq hb
  · rintro later a p earlier rfl hlater q hpq
    rw [Cache.claim, ← PathMap.get?_congr hpq, hr.get?_after_abandon hlater]
  · rw [List.toFinset_card_of_nodup hc.once.nodup, List.length_map, hc.size]

/-- The first client gives a component up, which the second one then claims, under another spelling,
and hands in. -/
def sampleRun : List (Exchange Bool) :=
  [.claim true ⟨"c/nav.html"⟩ (.cached ⟨[.text "nav"], []⟩),
    .finish false ⟨"c/nav.html"⟩ ⟨[.text "nav"], []⟩,
    .claim false ⟨"c/./nav.html"⟩ .claimed,
    .abandon true ⟨"c/nav.html"⟩,
    .claim false ⟨"c/nav.html"⟩ .busy,
    .claim true ⟨"c/nav.html"⟩ .claimed]

/-- What the cache holds after `sampleRun`. -/
def sampleCache : Cache := ⟨[(⟨"c/./nav.html"⟩, .compiled ⟨[.text "nav"], []⟩)]⟩

theorem custody_safe_sample :
    Run sampleRun sampleCache ∧
    (∀ a b p q, Owns a p sampleRun → Owns b q sampleRun → p.same q = true → a = b) ∧
    Path.Distinct (handedIn sampleRun) ∧
    (∀ answer, .claim true ⟨"c/nav.html"⟩ answer ∈ sampleRun.take 1 →
      answer = .cached ⟨[.text "nav"], []⟩) ∧
    sampleCache.size = ((handedIn sampleRun).map Path.components).toFinset.card := by
  have h₁ : Run [.claim true ⟨"c/nav.html"⟩ .claimed] ⟨[(⟨"c/nav.html"⟩, .inProgress)]⟩ :=
    start.claim true _
  have h₂ : Run (.claim false ⟨"c/nav.html"⟩ .busy :: _) _ := h₁.claim false ⟨"c/nav.html"⟩
  have h₃ : Run _ .empty := h₂.abandon (.inr (.inl ⟨rfl, Path.same_refl _, rfl⟩))
  have h₄ : Run _ ⟨[(⟨"c/./nav.html"⟩, .inProgress)]⟩ := h₃.claim false ⟨"c/./nav.html"⟩
  have h₅ : Run _ sampleCache :=
    h₄.finish (p := ⟨"c/nav.html"⟩) (.inl ⟨rfl, by decide, rfl⟩) ⟨[.text "nav"], []⟩
  have h₆ : Run sampleRun sampleCache := h₅.claim true ⟨"c/nav.html"⟩
  obtain ⟨hsole, honce, hserved, -, -, hsize⟩ := custody_safe h₆
  refine ⟨h₆, hsole, honce, fun answer hb => ?_, hsize⟩
  exact hserved [_] _ _ _ _ rfl _ _ _ (Path.same_refl _) hb

end Run

end Cache

end StaticSite

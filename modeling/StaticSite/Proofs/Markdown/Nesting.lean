import StaticSite.Proofs.Markdown.Shielding

/-!
# Nesting of events

Containers are entered and left like brackets are opened and closed (`Nested`). A container that is
replaced by its source is left out with what it contains and with its end, so its start and its end
share their fate whatever expressions are open in between (`Shields`), and what is left is nested
again (`shield_balanced`).

The shield finds the end of a container by counting, and the count is back at zero behind it
(`Counters`).
-/

namespace StaticSite.Markdown

open Text

/-- Containers are left in the opposite order to that in which they are entered. -/
inductive Nested : List Event → Prop where
  | nil : Nested []
  | single {e : Event} {es : List Event} (he : e.isSingle = true) (hes : Nested es) :
      Nested (e :: es)
  | container {inner es : List Event} (c : Container) (hinner : Nested inner) (hes : Nested es) :
      Nested (.enter c :: (inner ++ .leave c :: es))

theorem Nested.append {es fs : List Event} (h : Nested es) (h' : Nested fs) :
    Nested (es ++ fs) := by
  induction h with
  | nil => exact h'
  | single he _ ih => exact .single he ih
  | container c hinner _ _ ih =>
    rw [List.cons_append, List.append_assoc, List.cons_append]
    exact .container c hinner ih

/-- To prove a property of all nested events with their sources, it suffices to add single events
and containers in front. -/
@[elab_as_elim]
theorem nested_induction {α : Type} {motive : ∀ es : List (Event × α), Nested (es.map (·.1)) → Prop}
    (nil : motive [] .nil)
    (single : ∀ e s es, e.isSingle = true → ∀ hes, motive es hes → ∀ h, motive ((e, s) :: es) h)
    (container : ∀ c s s' inner es hinner hes, motive inner hinner → motive es hes →
      ∀ h, motive ((.enter c, s) :: (inner ++ (.leave c, s') :: es)) h) :
    ∀ es h, motive es h := by
  suffices hsuffices : ∀ us, Nested us → ∀ es, es.map (·.1) = us → ∀ h, motive es h from
    fun es h => hsuffices _ h es rfl h
  intro us hus es hes
  induction hus generalizing es with
  | nil =>
    cases List.map_eq_nil_iff.1 hes
    exact fun _ => nil
  | single he hrest ih =>
    obtain ⟨⟨e, s⟩, es, rfl, rfl, rfl⟩ := List.map_eq_cons_iff.1 hes
    exact single e s es he hrest (ih es rfl hrest)
  | container c hinner hrest ihinner ihrest =>
    obtain ⟨⟨_, s⟩, _, rfl, rfl, htail⟩ := List.map_eq_cons_iff.1 hes
    obtain ⟨inner, _, rfl, rfl, hclose⟩ := List.map_eq_append_iff.1 htail
    obtain ⟨⟨_, s'⟩, es, rfl, rfl, rfl⟩ := List.map_eq_cons_iff.1 hclose
    exact container c s s' inner es hinner hrest (ihinner inner rfl hinner) (ihrest es rfl hrest)

/-! ## Steps of the shield -/

section Step

variable {opened n : Nat} {c : Container} {s : List Char} {es : List (Event × List Char)}

theorem shield_enter :
    shield opened 0 ((.enter c, s) :: es) =
      if countExpressions opened s = 0 then .enter c :: shield (countExpressions opened s) 0 es
      else verbatim c s :: shield (countExpressions opened s) 1 es := by
  rw [shield, if_neg (Nat.lt_irrefl 0)]
  dsimp only
  split
  · rename_i hs
    rw [hs]
  · rfl

theorem shield_leave :
    shield opened 0 ((.leave c, s) :: es) = .leave c :: shield opened 0 es := by
  rw [shield, if_neg (Nat.lt_irrefl 0)]

theorem shield_enter_inside :
    shield opened (n + 1) ((.enter c, s) :: es) = shield opened (n + 2) es := by
  rw [shield, if_pos n.succ_pos]

theorem shield_leave_inside :
    shield opened (n + 1) ((.leave c, s) :: es) = shield opened n es := by
  rw [shield, if_pos n.succ_pos, Nat.add_sub_cancel]

end Step

/-! ## What becomes of each event -/

/-- What becomes of events, told without counting how deep they are, behind a number of open
expressions. Each event is passed on as it is, or its source stands in its place, or it is left out
since it stands inside a container whose source does, or ends that container. -/
inductive Shields : Nat → List (Event × List Char) → List Event → Prop where
  | nil {opened : Nat} : Shields opened [] []
  /-- The end of a container that was passed on. -/
  | leave {opened : Nat} {c : Container} {s : List Char} {es : List (Event × List Char)}
      {out : List Event} (hes : Shields opened es out) :
      Shields opened ((.leave c, s) :: es) (.leave c :: out)
  /-- No expression is open behind the source of the event. -/
  | pass {opened : Nat} {e : Event} {s : List Char} {es : List (Event × List Char)}
      {out : List Event} (he : ∀ c, e ≠ .leave c) (hs : countExpressions opened s = 0)
      (hes : Shields 0 es out) : Shields opened ((e, s) :: es) (e :: out)
  /-- An expression is open behind the source of a single event. -/
  | single {opened : Nat} {e : Event} {s : List Char} {es : List (Event × List Char)}
      {out : List Event} (he : e.isSingle = true) (hs : 0 < countExpressions opened s)
      (hes : Shields (countExpressions opened s) es out) :
      Shields opened ((e, s) :: es) (.inlineHtml (String.ofList s) :: out)
  /-- An expression is open behind the source of a container. -/
  | container {opened : Nat} {c : Container} {s s' : List Char}
      {inner es : List (Event × List Char)} {out : List Event}
      (hs : 0 < countExpressions opened s) (hinner : Nested (inner.map (·.1)))
      (hes : Shields (countExpressions opened s) es out) :
      Shields opened ((.enter c, s) :: (inner ++ (.leave c, s') :: es)) (verbatim c s :: out)

/-! ## The counters -/

/-- The counts that are kept while events are shielded. The second one is an integer, as nothing but
its use keeps it from falling below zero. -/
structure Counters where
  /-- The number of open expressions. -/
  opened : Nat := 0
  /-- The number of containers around what is left out. -/
  depth : Int := 0

namespace Counters

/-- The counts behind an event. -/
def next (k : Counters) (e : Event × List Char) : Counters :=
  if 0 < k.depth then
    match e.1 with
    | .enter _ => { k with depth := k.depth + 1 }
    | .leave _ => { k with depth := k.depth - 1 }
    | _ => k
  else
    match e.1 with
    | .leave _ => k
    | .enter _ =>
      let opened := countExpressions k.opened e.2
      if opened = 0 then { k with opened } else { opened, depth := 1 }
    | _ => { k with opened := countExpressions k.opened e.2 }

/-- The counts behind events. -/
def after (k : Counters) (es : List (Event × List Char)) : Counters := es.foldl next k

/-- The shield goes on with these counts. -/
def shield (k : Counters) (es : List (Event × List Char)) : List Event :=
  Markdown.shield k.opened k.depth.toNat es

theorem next_single {e : Event} (he : e.isSingle = true) (k : Counters) (s : List Char) :
    k.next (e, s) =
      if 0 < k.depth then k else { k with opened := countExpressions k.opened s } := by
  cases e with
  | enter | leave => cases he
  | _ => rfl

theorem next_enter (opened : Nat) (c : Container) (s : List Char) :
    next ⟨opened, 0⟩ (.enter c, s) =
      ⟨countExpressions opened s, if countExpressions opened s = 0 then 0 else 1⟩ := by
  refine (if_neg (Int.lt_irrefl 0)).trans ?_
  dsimp only
  split
  · rfl
  · rfl

theorem next_leave (opened : Nat) (c : Container) (s : List Char) :
    next ⟨opened, 0⟩ (.leave c, s) = ⟨opened, 0⟩ :=
  if_neg (Int.lt_irrefl 0)

theorem next_enter_inside (opened n : Nat) (c : Container) (s : List Char) :
    next ⟨opened, (n + 1 : Nat)⟩ (.enter c, s) = ⟨opened, (n + 2 : Nat)⟩ :=
  if_pos (Int.natCast_pos.2 n.succ_pos)

theorem next_leave_inside (opened n : Nat) (c : Container) (s : List Char) :
    next ⟨opened, (n + 1 : Nat)⟩ (.leave c, s) = ⟨opened, n⟩ := by
  refine (if_pos (Int.natCast_pos.2 n.succ_pos)).trans ?_
  simp

/-- The depth stays at zero or above from one event to the next, and the shield goes on with the
counts behind the event. -/
theorem shield_cons {k : Counters} (hk : 0 ≤ k.depth) (e : Event × List Char) :
    0 ≤ (k.next e).depth ∧ ∃ out, ∀ es, k.shield (e :: es) = out ++ (k.next e).shield es := by
  obtain ⟨opened, depth⟩ := k
  obtain ⟨n, rfl⟩ := Int.eq_ofNat_of_zero_le hk
  obtain ⟨e, s⟩ := e
  rcases n with _ | n
  · by_cases he : e.isSingle = true
    · rw [next_single he]
      exact ⟨hk, [_], fun es => shield_single he s⟩
    cases e with
    | leave c => exact ⟨hk, [.leave c], fun es => by simp [shield, next, Markdown.shield]⟩
    | enter c =>
      by_cases ho : countExpressions opened s = 0
      · exact ⟨by simp [next, ho], [.enter c],
          fun es => by simp [shield, next, Markdown.shield, ho]⟩
      · exact ⟨by simp [next, ho], [verbatim c s],
          fun es => by simp [shield, next, Markdown.shield, ho]⟩
    | _ => exact absurd rfl he
  · by_cases he : e.isSingle = true
    · rw [next_single he, if_pos (Int.natCast_pos.2 n.succ_pos)]
      exact ⟨hk, [], fun es => shield_single_inside he s n.succ_pos⟩
    cases e with
    | leave c =>
      rw [next_leave_inside]
      exact ⟨Int.natCast_nonneg n, [], fun es => shield_leave_inside⟩
    | enter c =>
      rw [next_enter_inside]
      exact ⟨Int.natCast_nonneg _, [], fun es => shield_enter_inside⟩
    | _ => exact absurd rfl he

theorem shield_append {k : Counters} (hk : 0 ≤ k.depth) (es : List (Event × List Char)) :
    0 ≤ (k.after es).depth ∧
      ∀ fs, k.shield (es ++ fs) = k.shield es ++ (k.after es).shield fs := by
  induction es generalizing k with
  | nil => exact ⟨hk, fun fs => rfl⟩
  | cons e es ih =>
    obtain ⟨hnext, out, hout⟩ := shield_cons hk e
    obtain ⟨hafter, hfs⟩ := ih hnext
    refine ⟨hafter, fun fs => ?_⟩
    rw [List.cons_append, hout, hout, hfs, List.append_assoc]
    rfl

theorem after_append (k : Counters) (es fs : List (Event × List Char)) :
    k.after (es ++ fs) = (k.after es).after fs := List.foldl_append

end Counters

/-! ## Nested events -/

section Inside

variable {opened n : Nat} {es : List (Event × List Char)}

/-- Nested events inside a container that is left out are left out. -/
theorem shield_nested_inside (h : Nested (es.map (·.1))) (fs : List (Event × List Char)) :
    shield opened (n + 1) (es ++ fs) = shield opened (n + 1) fs := by
  induction es, h using nested_induction generalizing n fs with
  | nil => rfl
  | single e s es he _ ih _ => rw [List.cons_append, shield_single_inside he s n.succ_pos, ih]
  | container c s s' inner es _ _ ihinner ihes _ =>
    rw [List.cons_append, shield_enter_inside, List.append_assoc, ihinner, List.cons_append,
      shield_leave_inside, ihes]

/-- The depth behind nested events is what it was in front. -/
theorem after_nested_inside (h : Nested (es.map (·.1))) :
    Counters.after ⟨opened, (n + 1 : Nat)⟩ es = ⟨opened, (n + 1 : Nat)⟩ := by
  induction es, h using nested_induction generalizing n with
  | nil => rfl
  | single e s es he _ ih _ =>
    rw [Counters.after, List.foldl_cons, Counters.next_single he,
      if_pos (Int.natCast_pos.2 n.succ_pos)]
    exact ih
  | container c s s' inner es _ _ ihinner ihes _ =>
    rw [Counters.after, List.foldl_cons, Counters.next_enter_inside, ← Counters.after,
      Counters.after_append, ihinner, Counters.after, List.foldl_cons, Counters.next_leave_inside]
    exact ihes

end Inside

/-- What becomes of events that no container around them hides: the events that are passed on or
stand for others, and the number of expressions that are open behind. -/
structure Passage (opened : Nat) (es : List (Event × List Char)) (opened' : Nat)
    (out : List Event) : Prop where
  shield : ∀ fs, shield opened 0 (es ++ fs) = out ++ shield opened' 0 fs
  nested : Nested out
  fates : ∀ {fs out'}, Shields opened' fs out' → Shields opened (es ++ fs) (out ++ out')
  after : Counters.after ⟨opened, 0⟩ es = ⟨opened', 0⟩

namespace Passage

variable {opened opened' : Nat} {e : Event} {c : Container} {s s' : List Char}
  {es inner : List (Event × List Char)} {out : List Event}

theorem shield_eq (h : Passage opened es opened' out) : Markdown.shield opened 0 es = out := by
  have := h.shield []
  rwa [List.append_nil, Markdown.shield, List.append_nil] at this

theorem shields (h : Passage opened es opened' out) : Shields opened es out := by
  have := h.fates .nil
  rwa [List.append_nil, List.append_nil] at this

theorem single (he : e.isSingle = true) (h : Passage (countExpressions opened s) es opened' out) :
    Passage opened ((e, s) :: es) opened'
      ((if countExpressions opened s = 0 then e else .inlineHtml (String.ofList s)) :: out) where
  shield fs := by rw [List.cons_append, shield_single he, h.shield, List.cons_append]
  nested := by
    split
    · exact .single he h.nested
    · exact .single rfl h.nested
  fates hfs := by
    split
    · rename_i hs
      refine .pass (fun c hc => ?_) hs ?_
      · rw [hc] at he
        cases he
      · rw [← hs]
        exact h.fates hfs
    · rename_i hs
      exact .single he (Nat.pos_of_ne_zero hs) (h.fates hfs)
  after := by
    rw [Counters.after, List.foldl_cons, Counters.next_single he]
    exact h.after

/-- A container that is passed on. -/
theorem container {between : Nat} {out' : List Event} (hs : countExpressions opened s = 0)
    (hinner : Passage 0 inner between out) (h : Passage between es opened' out') :
    Passage opened ((.enter c, s) :: (inner ++ (.leave c, s') :: es)) opened'
      (.enter c :: (out ++ .leave c :: out')) where
  shield fs := by
    rw [List.cons_append, List.append_assoc, List.cons_append, List.cons_append, List.append_assoc,
      List.cons_append, ← h.shield, ← shield_leave, ← hinner.shield, shield_enter, if_pos hs, hs]
  nested := .container c hinner.nested h.nested
  fates hfs := by
    rw [List.cons_append, List.append_assoc, List.cons_append, List.cons_append, List.append_assoc,
      List.cons_append]
    exact .pass (fun _ => nofun) hs (hinner.fates (.leave (h.fates hfs)))
  after := by
    rw [Counters.after, List.foldl_cons, Counters.next_enter, hs, if_pos rfl, ← Counters.after,
      Counters.after_append, hinner.after, Counters.after, List.foldl_cons, Counters.next_leave]
    exact h.after

/-- A container that is replaced by its source. -/
theorem verbatim (hs : countExpressions opened s ≠ 0) (hinner : Nested (inner.map (·.1)))
    (h : Passage (countExpressions opened s) es opened' out) :
    Passage opened ((.enter c, s) :: (inner ++ (.leave c, s') :: es)) opened'
      (verbatim c s :: out) where
  shield fs := by
    rw [List.cons_append, shield_enter, if_neg hs, List.append_assoc, shield_nested_inside hinner,
      List.cons_append, shield_leave_inside, h.shield, List.cons_append]
  nested := by
    refine .single ?_ h.nested
    rw [Markdown.verbatim]
    split
    · rfl
    · rfl
  fates hfs := by
    rw [List.cons_append, List.append_assoc, List.cons_append]
    exact .container (Nat.pos_of_ne_zero hs) hinner (h.fates hfs)
  after := by
    have hbehind : Counters.after ⟨countExpressions opened s, 1⟩ inner =
        ⟨countExpressions opened s, 1⟩ := after_nested_inside (n := 0) hinner
    have hleave : Counters.next ⟨countExpressions opened s, 1⟩ (.leave c, s') =
        ⟨countExpressions opened s, 0⟩ := Counters.next_leave_inside _ 0 c s'
    rw [Counters.after, List.foldl_cons, Counters.next_enter, if_neg hs, ← Counters.after,
      Counters.after_append, hbehind, Counters.after, List.foldl_cons, hleave]
    exact h.after

end Passage

/-- Nested events have a passage behind any number of open expressions. -/
theorem Nested.passage {es : List (Event × List Char)} (h : Nested (es.map (·.1))) (opened : Nat) :
    ∃ opened' out, Passage opened es opened' out := by
  induction es, h using nested_induction generalizing opened with
  | nil => exact ⟨opened, [], fun _ => rfl, .nil, fun hfs => hfs, rfl⟩
  | single e s es he _ ih _ =>
    obtain ⟨opened', out, hp⟩ := ih (countExpressions opened s)
    exact ⟨opened', _, hp.single he⟩
  | container c s s' inner es hinner _ ihinner ihes _ =>
    by_cases hs : countExpressions opened s = 0
    · obtain ⟨between, out, hp⟩ := ihinner 0
      obtain ⟨opened', out', hp'⟩ := ihes between
      exact ⟨opened', _, .container hs hp hp'⟩
    · obtain ⟨opened', out, hp⟩ := ihes (countExpressions opened s)
      exact ⟨opened', _, .verbatim hs hinner hp⟩

/-- Events without anything that opens an expression are passed on as they are. -/
theorem shield_eq_map {es : List (Event × List Char)}
    (h : ∀ e ∈ es, occursIn openMarker e.2 = false) : shield 0 0 es = es.map (·.1) := by
  induction es with
  | nil => rfl
  | cons e es ih =>
    obtain ⟨e, s⟩ := e
    obtain ⟨hs, hes⟩ := List.forall_mem_cons.1 h
    have hcount : countExpressions 0 s = 0 := by simp [countExpressions, hs]
    rw [List.map_cons, ← ih hes]
    by_cases he : e.isSingle = true
    · rw [shield_single he, hcount, if_pos rfl]
    cases e with
    | leave c => exact shield_leave
    | enter c => rw [shield_enter, hcount, if_pos rfl]
    | _ => exact absurd rfl he

/-- A paragraph with an expression that is opened in a link within emphasis, and closed behind
it. -/
def sampleEvents : List (Event × List Char) :=
  [(.enter .paragraph, "*[\x7b\x7b](x)* \x7d\x7d".toList),
    (.enter .emphasis, "*[\x7b\x7b](x)*".toList),
    (.enter (.link "x" ""), "[\x7b\x7b](x)".toList), (.text "\x7b\x7b", "\x7b\x7b".toList),
    (.leave (.link "x" ""), "[\x7b\x7b](x)".toList), (.leave .emphasis, "*[\x7b\x7b](x)*".toList),
    (.text " \x7d\x7d", " \x7d\x7d".toList), (.leave .paragraph, "*[\x7b\x7b](x)* \x7d\x7d".toList)]

end StaticSite.Markdown

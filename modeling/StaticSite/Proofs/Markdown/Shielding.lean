import StaticSite.Proofs.Markdown.Closing
import StaticSite.Proofs.Markdown.Emphasis

/-!
# Trees inside an expression

While an expression is open, a tree of a line is replaced by its source, and what it contains is
left out. So trees whose sources neither open nor close an expression are written as they stand in
the source.
-/

namespace StaticSite.Markdown

open Text

/-! ## Markers -/

theorem occursIn_iff {pattern s : List Char} : occursIn pattern s = true ↔ pattern <:+: s := by
  constructor
  · intro h
    obtain ⟨p, hp⟩ := Option.isSome_iff_exists.1 h
    obtain ⟨rfl, hprefix⟩ := splitBefore?_eq hp
    exact hprefix.isInfix.trans (List.suffix_append _ _).isInfix
  · rintro ⟨u, v, rfl⟩
    rw [occursIn]
    induction u with
    | nil =>
      have hprefix : pattern.isPrefixOf (pattern ++ v) = true :=
        List.isPrefixOf_iff_prefix.2 (List.prefix_append _ _)
      rcases hs : pattern ++ v with _ | ⟨c, s⟩
      · rw [List.append_eq_nil_iff] at hs
        rw [hs.1]
        simp [hs.2, splitBefore?]
      · rw [hs] at hprefix
        rw [List.nil_append, hs, splitBefore?, if_pos hprefix]
        rfl
    | cons c u ih =>
      rw [List.cons_append, List.cons_append, splitBefore?]
      split
      · rfl
      · rw [Option.isSome_map]
        exact ih

section Count

variable {s : List Char} (opened : Nat)

theorem not_occursIn {c : Char} (pattern : List Char) (hc : c ∉ s) (hpattern : c ∈ pattern) :
    ¬occursIn pattern s := fun h =>
  hc ((occursIn_iff.1 h).subset hpattern)

/-- Source without braces neither opens nor closes an expression. -/
theorem countExpressions_of_not_mem (hopen : '\x7b' ∉ s) (hclose : '\x7d' ∉ s) :
    countExpressions opened s = opened := by
  rw [countExpressions, if_neg (not_occursIn openMarker hopen List.mem_cons_self),
    if_neg (not_occursIn closeMarker hclose List.mem_cons_self)]

theorem countExpressions_open (hopen : openMarker <:+: s) (hclose : '\x7d' ∉ s) :
    countExpressions opened s = opened + 1 := by
  rw [countExpressions, if_pos (occursIn_iff.2 hopen),
    if_neg (not_occursIn closeMarker hclose List.mem_cons_self)]

theorem countExpressions_close (hopen : '\x7b' ∉ s) (hclose : closeMarker <:+: s) :
    countExpressions opened s = opened - 1 := by
  rw [countExpressions, if_neg (not_occursIn openMarker hopen List.mem_cons_self),
    if_pos (occursIn_iff.2 hclose)]

theorem countExpressions_both (hopen : openMarker <:+: s) (hclose : closeMarker <:+: s) :
    countExpressions opened s = opened := by
  rw [countExpressions, if_pos (occursIn_iff.2 hopen), if_pos (occursIn_iff.2 hclose),
    Nat.add_sub_cancel]

end Count

/-! ## Events -/

/-- Events with the source that they were read from. -/
def withSource (chars : Array Char) (es : List (Event × Span)) : List (Event × List Char) :=
  es.map fun e => (e.1, slice chars e.2)

@[simp] theorem withSource_nil (chars : Array Char) : withSource chars [] = [] := rfl

@[simp] theorem withSource_cons (chars : Array Char) (e : Event × Span) (es : List (Event × Span)) :
    withSource chars (e :: es) = (e.1, slice chars e.2) :: withSource chars es := rfl

@[simp] theorem withSource_append (chars : Array Char) (es fs : List (Event × Span)) :
    withSource chars (es ++ fs) = withSource chars es ++ withSource chars fs := List.map_append

theorem eventsOf_append (ts us : List Tree) :
    eventsOf (ts ++ us) = eventsOf ts ++ eventsOf us := by
  induction ts with
  | nil => rfl
  | cons t ts ih => rw [List.cons_append, eventsOf, eventsOf, ih, List.append_assoc]

/-- The source that a tree was read from. -/
def Tree.source (chars : Array Char) (t : Tree) : List Char := slice chars t.span

variable {chars : Array Char} {opened depth : Nat} {rest : List (Event × List Char)}

/-- An event that is no edge of a container is replaced by its source while an expression is open
behind that. -/
theorem shield_single {e : Event} (he : e.isSingle = true) (source : List Char) :
    shield opened 0 ((e, source) :: rest) =
      (if countExpressions opened source = 0 then e else .inlineHtml (String.ofList source)) ::
        shield (countExpressions opened source) 0 rest := by
  cases e with
  | enter | leave => cases he
  | _ =>
    simp only [shield, Nat.lt_irrefl, if_false]
    split
    · rename_i h
      rw [h]
    · rfl

theorem shield_single_inside {e : Event} (he : e.isSingle = true) (source : List Char)
    (hdepth : 0 < depth) :
    shield opened depth ((e, source) :: rest) = shield opened depth rest := by
  cases e with
  | enter | leave => cases he
  | _ => simp only [shield, if_pos hdepth]

/-- Trees are left out if each of them is. -/
theorem shield_eventsOf {ts : List Tree}
    (h : ∀ t ∈ ts, ∀ rest, shield opened depth (withSource chars t.events ++ rest) =
      shield opened depth rest) :
    shield opened depth (withSource chars (eventsOf ts) ++ rest) = shield opened depth rest := by
  induction ts with
  | nil => rfl
  | cons t ts ih =>
    obtain ⟨ht, hts⟩ := List.forall_mem_cons.1 h
    rw [eventsOf, withSource_append, List.append_assoc, ht, ih hts]

/-- What stands inside a container that is left out is left out. -/
theorem shield_inside {t : Tree} (h : t.Inner) (hdepth : 0 < depth) :
    shield opened depth (withSource chars t.events ++ rest) = shield opened depth rest := by
  induction h generalizing depth rest with
  | leaf he =>
    rw [Tree.events, withSource_cons, withSource_nil, List.singleton_append,
      shield_single_inside he _ hdepth]
  | @node c span ts hc hts ih =>
    rw [Tree.events, withSource_cons, List.cons_append, shield, if_pos hdepth, withSource_append,
      List.append_assoc, shield_eventsOf fun t ht rest => ih t ht (Nat.succ_pos depth),
      withSource_cons, withSource_nil, List.singleton_append, shield, if_pos (Nat.succ_pos depth)]
    rfl

/-- A tree of a line is replaced by its source if an expression is open behind that. -/
theorem shield_tree {t : Tree} (h : t.Inner) {n : Nat}
    (hn : countExpressions opened (t.source chars) = n + 1) :
    shield opened 0 (withSource chars t.events ++ rest) =
      .inlineHtml (String.ofList (t.source chars)) :: shield (n + 1) 0 rest := by
  cases h with
  | @leaf e span he =>
    rw [Tree.source, Tree.span] at hn ⊢
    rw [Tree.events, withSource_cons, withSource_nil, List.singleton_append, shield_single he, hn,
      if_neg (Nat.succ_ne_zero n)]
  | @node c span ts hc hts =>
    rw [Tree.source, Tree.span] at hn ⊢
    rw [Tree.events, withSource_cons, List.cons_append, shield, if_neg (Nat.lt_irrefl 0)]
    dsimp only
    rw [hn, if_neg (Nat.succ_ne_zero n), verbatim, hc, if_pos rfl, withSource_append,
      List.append_assoc, shield_eventsOf fun t ht rest => shield_inside (hts t ht) Nat.one_pos,
      withSource_cons, withSource_nil, List.singleton_append, shield, if_pos Nat.one_pos]

/-- Trees whose sources neither open nor close an expression are replaced by their sources. -/
theorem shield_trees {ts : List Tree} {n : Nat} (h : ∀ t ∈ ts, t.Inner)
    (hn : ∀ t ∈ ts, countExpressions (n + 1) (t.source chars) = n + 1) :
    shield (n + 1) 0 (withSource chars (eventsOf ts) ++ rest) =
      (ts.map fun t => .inlineHtml (String.ofList (t.source chars))) ++ shield (n + 1) 0 rest := by
  induction ts with
  | nil => rfl
  | cons t ts ih =>
    obtain ⟨ht, hts⟩ := List.forall_mem_cons.1 h
    obtain ⟨hnt, hnts⟩ := List.forall_mem_cons.1 hn
    rw [eventsOf, withSource_append, List.append_assoc, shield_tree ht hnt, ih hts hnts,
      List.map_cons, List.cons_append]

/-! ## Output -/

namespace Output

/-- What was written. -/
def html (o : Output) : List Char := (String.join o.parts.reverse).toList

variable {o : Output}

theorem html_writeRaw (s : String) : (o.writeRaw s).html = o.html ++ s.toList := by
  simp [html, writeRaw, String.join]

theorem html_write (s : String) : (o.write s).html = o.html ++ s.toList := by
  rw [write]
  split
  · rename_i h
    simp [String.isEmpty_iff.1 h]
  · exact html_writeRaw s

theorem imageDepth_write (s : String) : (o.write s).imageDepth = o.imageDepth := by
  rw [write]
  split
  · rfl
  · rfl

/-- Raw HTML within a line is written as it is. -/
theorem foldl_inlineHtml (texts : List (List Char)) (h : o.imageDepth = 0) :
    ((texts.map fun s => Event.inlineHtml (String.ofList s)).foldl step o).imageDepth = 0 ∧
      ((texts.map fun s => Event.inlineHtml (String.ofList s)).foldl step o).html =
        o.html ++ texts.flatten := by
  induction texts generalizing o with
  | nil => simp [h]
  | cons s texts ih =>
    have hstep : o.step (.inlineHtml (String.ofList s)) = o.write (String.ofList s) := by
      rw [step, if_pos h, put]
    rw [List.map_cons, List.foldl_cons, hstep]
    obtain ⟨hdepth, hhtml⟩ := ih (o := o.write (String.ofList s)) (by rwa [imageDepth_write])
    refine ⟨hdepth, ?_⟩
    rw [hhtml, html_write, String.toList_ofList, List.flatten_cons, List.append_assoc]

end Output

/-- A paragraph of raw HTML and text behind it. -/
theorem toHtml_paragraph (texts : List (List Char)) (tail : List Char) :
    (toHtml (.enter .paragraph :: (texts.map fun s => .inlineHtml (String.ofList s)) ++
      [.text (String.ofList tail), .leave .paragraph])).toList =
      "<p>".toList ++ texts.flatten ++ tail.flatMap bodyChar ++ "</p>\n".toList := by
  have hstart : (({} : Output).step (.enter .paragraph)).imageDepth = 0 ∧
      (({} : Output).step (.enter .paragraph)).html = "<p>".toList := by decide +kernel
  obtain ⟨hdepth, hhtml⟩ := Output.foldl_inlineHtml texts hstart.1
  have hend : ∀ {o : Output}, o.imageDepth = 0 →
      ((o.step (.text (String.ofList tail))).step (.leave .paragraph)).html =
        o.html ++ tail.flatMap bodyChar ++ "</p>\n".toList := by
    intro o ho
    have htext : (o.step (.text (String.ofList tail))).imageDepth = 0 ∧
        (o.step (.text (String.ofList tail))).html = o.html ++ tail.flatMap bodyChar := by
      rw [Output.step, if_pos ho]
      refine ⟨ho, (Output.html_writeRaw _).trans ?_⟩
      rw [mapChars, String.toList_ofList, String.toList_ofList]
    rw [Output.step, if_pos htext.1, ← htext.2]
    exact Output.html_write _
  rw [toHtml, List.cons_append, List.foldl_cons, List.foldl_append, List.foldl_cons,
    List.foldl_cons, List.foldl_nil]
  exact (hend hdepth).trans (by rw [hhtml, hstart.2])

end StaticSite.Markdown

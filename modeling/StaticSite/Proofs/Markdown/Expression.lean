import StaticSite.Proofs.Markdown.Links
import StaticSite.Proofs.Markdown.Paragraph
import StaticSite.Proofs.Markdown.Shielding

/-!
# Expressions within a line

A paragraph holds an expression between two words. Its trees cover the line; the first one opens the
expression, and the last one, which is text, closes it. So what stands before the last tree is
written as in the source, and the last tree is escaped. The expression comes through as it was
written unless a backslash belongs to no tree, or the last tree has a character that is escaped.
-/

namespace StaticSite.Markdown

open Reading Text

/-- What stands before an expression. -/
def lineHead : List Char := ['S', 'o', 'm', 'e', ' ', '\x7b', '\x7b', ' ']

/-- What stands behind an expression. -/
def lineTail : List Char := [' ', '\x7d', '\x7d', ' ', 't', 'e', 'x', 't']

/-- A line with an expression. -/
def expressionLine (e : List Char) : List Char := lineHead ++ e ++ lineTail

/-- A text that can stand in an expression within a line. -/
def IsExpression (e : List Char) : Prop :=
  ∀ c ∈ e, c ≠ '\x7b' ∧ c ≠ '\x7d' ∧ c ≠ '\n' ∧ c ≠ '\r'

instance (e : List Char) : Decidable (IsExpression e) := List.decidableBAll _ e

/-- The character is written as it is. -/
def KeepsChar (c : Char) : Prop := bodyChar c = [c]

variable {e : List Char} {n i j : Nat} {c : Char}

section Line

variable (he : IsExpression e)

theorem length_head_append (e : List Char) : (lineHead ++ e).length = 8 + e.length := by
  rw [List.length_append]
  rfl

theorem length_expressionLine (e : List Char) : (expressionLine e).length = 8 + e.length + 8 := by
  rw [expressionLine, List.length_append, length_head_append]
  rfl

theorem mem_lineHead (hn : n < 8) (hc : (expressionLine e)[n]? = some c) : c ∈ lineHead := by
  rw [expressionLine, List.append_assoc, List.getElem?_append_left (by exact hn)] at hc
  exact List.mem_of_getElem? hc

theorem mem_lineTail (hn : 8 + e.length ≤ n) (hc : (expressionLine e)[n]? = some c) :
    c ∈ lineTail := by
  have hlength := length_head_append e
  rw [expressionLine, List.getElem?_append_right (by omega)] at hc
  exact List.mem_of_getElem? hc

theorem mem_expression (hn : 8 ≤ n) (hlt : n < 8 + e.length)
    (hc : (expressionLine e)[n]? = some c) : c ∈ e := by
  have hhead : lineHead.length = 8 := rfl
  rw [expressionLine, List.append_assoc, List.getElem?_append_right (by omega),
    List.getElem?_append_left (by omega)] at hc
  exact List.mem_of_getElem? hc

theorem drop_expressionLine (e : List Char) :
    (expressionLine e).drop (8 + e.length) = lineTail := by
  rw [expressionLine, List.drop_left' (length_head_append e)]

include he

theorem oneLine_expressionLine : ∀ d ∈ expressionLine e, d ≠ '\n' ∧ d ≠ '\r' := by
  have hends : ∀ d ∈ lineHead ++ lineTail, d ≠ '\n' ∧ d ≠ '\r' := by simp [lineHead, lineTail]
  intro d hd
  simp only [expressionLine, List.mem_append] at hd hends
  rcases hd with (hd | hd) | hd
  · exact hends d (.inl hd)
  · exact (he d hd).2.2
  · exact hends d (.inr hd)

/-- The line is framed by the words and the markers around the expression. -/
theorem framed_expressionLine : Framed (expressionLine e) 8 (8 + e.length) where
  oneLine h := (oneLine_expressionLine he _ h).1 rfl
  plain_before n c hn hc :=
    List.all_eq_true.1 (by decide : lineHead.all isPlain = true) c (mem_lineHead hn hc)
  plain_behind n c hn hc :=
    List.all_eq_true.1 (by decide : lineTail.all isPlain = true) c (mem_lineTail hn hc)
  blank := by
    rw [← List.head?_drop, drop_expressionLine]
    rfl
  last := ⟨'t', by rw [expressionLine, List.getLast?_append]; rfl, rfl⟩

/-- Opening braces stand only before the expression, and closing ones only behind it. -/
theorem brace_place (hc : (expressionLine e)[n]? = some c) :
    (c = '\x7b' → n < 8) ∧ (c = '\x7d' → 8 + e.length ≤ n) := by
  constructor
  · rintro rfl
    refine Nat.lt_of_not_le fun hn => ?_
    by_cases hlt : n < 8 + e.length
    · exact (he _ (mem_expression hn hlt hc)).1 rfl
    · exact absurd (mem_lineTail (Nat.le_of_not_lt hlt) hc) (by decide)
  · rintro rfl
    refine Nat.le_of_not_lt fun hlt => ?_
    by_cases hn : n < 8
    · exact absurd (mem_lineHead hn hc) (by decide)
    · exact (he _ (mem_expression (Nat.le_of_not_lt hn) hlt hc)).2.1 rfl

theorem no_open_between (hi : 8 ≤ i) : '\x7b' ∉ between (expressionLine e) i j := by
  intro h
  obtain ⟨n, hin, hnj, hn⟩ := mem_between h
  have := (brace_place he hn).1 rfl
  omega

theorem no_close_between (hj : j ≤ 8 + e.length) : '\x7d' ∉ between (expressionLine e) i j := by
  intro h
  obtain ⟨n, hin, hnj, hn⟩ := mem_between h
  have := (brace_place he hn).2 rfl
  omega

end Line

/-! ## Escaping -/

theorem flatMap_bodyChar_of_keepsChar (h : ∀ c ∈ e, KeepsChar c) : e.flatMap bodyChar = e := by
  induction e with
  | nil => rfl
  | cons c e ih =>
    obtain ⟨hc, he⟩ := List.forall_mem_cons.1 h
    rw [List.flatMap_cons, hc, ih he, List.singleton_append]

/-- A character that is escaped becomes at least two, none of which is a backslash or a brace. -/
theorem bodyChar_cases (c : Char) :
    KeepsChar c ∨ (1 < (bodyChar c).length ∧
      '\\' ∉ bodyChar c ∧ '\x7b' ∉ bodyChar c ∧ '\x7d' ∉ bodyChar c) := by
  unfold KeepsChar bodyChar
  split
  · exact .inr (by decide)
  · exact .inr (by decide)
  · exact .inr (by decide)
  · exact .inl rfl

theorem mem_flatMap_bodyChar {d : Char} (hd : d = '\x7b' ∨ d = '\x7d')
    (h : d ∈ e.flatMap bodyChar) : d ∈ e := by
  obtain ⟨c, hc, hdc⟩ := List.mem_flatMap.1 h
  rcases bodyChar_cases c with hkeep | ⟨-, -, hopen, hclose⟩
  · rw [hkeep] at hdc
    rwa [List.mem_singleton.1 hdc]
  · rcases hd with rfl | rfl
    · exact absurd hdc hopen
    · exact absurd hdc hclose

/-- Escaping loses no characters, and it adds some that are no backslashes unless it keeps all. -/
theorem countP_flatMap_bodyChar (s : List Char) :
    s.countP (· != '\\') ≤ (s.flatMap bodyChar).countP (· != '\\') ∧
      ((s.flatMap bodyChar).countP (· != '\\') = s.countP (· != '\\') →
        ∀ c ∈ s, KeepsChar c) := by
  induction s with
  | nil => exact ⟨Nat.le_refl 0, fun _ => List.forall_mem_nil _⟩
  | cons c s ih =>
    obtain ⟨hle, hkeeps⟩ := ih
    rw [List.flatMap_cons, List.countP_append, List.countP_cons]
    rcases bodyChar_cases c with hkeep | ⟨hlength, hslash, -⟩
    · rw [show bodyChar c = [c] from hkeep, List.countP_singleton]
      refine ⟨by omega, fun h => List.forall_mem_cons.2 ⟨hkeep, hkeeps (by omega)⟩⟩
    · have hall : (bodyChar c).countP (· != '\\') = (bodyChar c).length :=
        List.countP_eq_length.2 fun d hd => by
          have hne : d ≠ '\\' := fun h => hslash (h ▸ hd)
          simpa using hne
      have hone : (if (c != '\\') = true then 1 else 0) ≤ 1 := by
        split
        · exact Nat.le_refl 1
        · exact Nat.zero_le 1
      exact ⟨by omega, fun h => absurd h (by omega)⟩

/-! ## The braces of the output -/

/-- Between the words, only the one expression stands between braces. -/
theorem infix_iff_eq {x : List Char} (hx : '\x7b' ∉ x ∧ '\x7d' ∉ x) (he : '\x7b' ∉ e ∧ '\x7d' ∉ e)
    {before behind : List Char} (hbefore : '\x7b' ∉ before) (hbehind : '\x7b' ∉ behind) :
    (openMarker ++ e ++ closeMarker) <:+: (before ++ openMarker ++ x ++ closeMarker ++ behind) ↔
      x = e := by
  constructor
  · rintro ⟨u, v, huv⟩
    have hcount := congrArg (List.count '\x7b') huv
    simp only [List.count_append, List.count_eq_zero.2 hx.1, List.count_eq_zero.2 he.1,
      List.count_eq_zero.2 hbefore, List.count_eq_zero.2 hbehind] at hcount
    have hu : '\x7b' ∉ u := List.count_eq_zero.1 (by omega)
    have hdrop : ∀ {s : List Char} (t : List Char), '\x7b' ∉ s →
        (s ++ (openMarker ++ t)).dropWhile (· != '\x7b') = openMarker ++ t := by
      intro s t hs
      rw [List.dropWhile_append_of_pos]
      · rfl
      · intro c hc
        have hne : c ≠ '\x7b' := fun h => hs (h ▸ hc)
        simpa using hne
    have htake : ∀ {s : List Char} (t : List Char), '\x7d' ∉ s →
        (s ++ (closeMarker ++ t)).takeWhile (· != '\x7d') = s := by
      intro s t hs
      rw [List.takeWhile_append_of_pos]
      · exact List.append_nil s
      · intro c hc
        have hne : c ≠ '\x7d' := fun h => hs (h ▸ hc)
        simpa using hne
    simp only [List.append_assoc] at huv
    have hopen := congrArg (List.dropWhile (· != '\x7b')) huv
    rw [hdrop _ hu, hdrop _ hbefore] at hopen
    have hclose := congrArg (List.takeWhile (· != '\x7d')) (List.append_cancel_left hopen)
    rwa [htake _ he.2, htake _ hx.2, eq_comm] at hclose
  · rintro rfl
    exact ⟨before, behind, by simp⟩

/-! ## The output -/

theorem openMarker_occurs (hj : 8 ≤ j) : openMarker <:+: between (expressionLine e) 0 j := by
  have hhead : between (expressionLine e) 0 8 = lineHead := by
    rw [expressionLine, List.append_assoc]
    rfl
  rw [← between_append (Nat.zero_le 8) hj, hhead]
  exact List.IsInfix.trans ⟨['S', 'o', 'm', 'e', ' '], [' '], rfl⟩ (List.prefix_append _ _).isInfix

theorem closeMarker_occurs (hi : i ≤ 8 + e.length) :
    closeMarker <:+: (expressionLine e).drop i := by
  have htail : (expressionLine e).drop (8 + e.length) <:+ (expressionLine e).drop i := by
    rw [show 8 + e.length = i + (8 + e.length - i) by omega, ← List.drop_drop]
    exact List.drop_suffix _ _
  rw [drop_expressionLine] at htail
  exact List.IsInfix.trans ⟨[' '], [' ', 't', 'e', 'x', 't'], rfl⟩ htail.isInfix

/-- No backslash stands before the line. -/
theorem eq_zero_of_gap (h : Gap (expressionLine e) 0 j) : j = 0 := by
  refine Nat.eq_zero_of_not_pos fun hj => ?_
  cases h.slashes 0 (Nat.le_refl 0) hj

section Output

variable {ys : List Tree} {s : Nat}

/-- The events of the trees of the line, where the last tree is text. -/
theorem shield_expressionLine (he : IsExpression e)
    (hys : TreeTiles (expressionLine e) 8 0 ys s) (hs : s ≤ 8 + e.length)
    {rest : List (Event × List Char)} :
    shield 0 0 (withSource (expressionLine e).toArray (eventsOf ys) ++
        (.text (String.ofList ((expressionLine e).drop s)), (expressionLine e).drop s) :: rest) =
      (ys.map fun t => .inlineHtml (String.ofList (t.source (expressionLine e).toArray))) ++
        .text (String.ofList ((expressionLine e).drop s)) :: shield 0 0 rest := by
  have hclose := closeMarker_occurs hs
  cases hys with
  | nil h =>
    obtain rfl := eq_zero_of_gap h
    have hopen := openMarker_occurs (e := e) (j := (expressionLine e).length)
      (by rw [length_expressionLine]; omega)
    rw [between_eq_drop (Nat.le_refl _)] at hopen
    rw [eventsOf, withSource_nil, List.nil_append, shield_single rfl,
      countExpressions_both 0 hopen hclose, if_pos rfl]
    rfl
  | @cons _ _ y ys h hlt hy hys =>
    have hzero := eq_zero_of_gap h
    have hystop := hys.le
    have hsource : y.source (expressionLine e).toArray =
        between (expressionLine e) 0 y.span.stop := by
      rw [Tree.source, slice_toArray, hzero]
    have hopen : openMarker <:+: y.source (expressionLine e).toArray := by
      rw [hsource]
      exact openMarker_occurs hy.1
    have hnot : '\x7d' ∉ y.source (expressionLine e).toArray := by
      rw [hsource]
      exact no_close_between he (Nat.le_trans hystop hs)
    have htail : '\x7b' ∉ (expressionLine e).drop s := by
      rw [← between_eq_drop (Nat.le_refl _)]
      exact no_open_between he (Nat.le_trans hy.1 hystop)
    have hcount : ∀ t ∈ ys, countExpressions 1 (t.source (expressionLine e).toArray) = 1 := by
      intro t ht
      obtain ⟨hstart, hstop⟩ := hys.bounds t ht
      rw [Tree.source, slice_toArray]
      exact countExpressions_of_not_mem 1 (no_open_between he (Nat.le_trans hy.1 hstart))
        (no_close_between he (Nat.le_trans hstop hs))
    rw [eventsOf, withSource_append, List.append_assoc,
      shield_tree hy.2 (countExpressions_open 0 hopen hnot),
      shield_trees (fun t ht => (hys.forall_mem t ht).2) hcount, shield_single rfl,
      countExpressions_close _ htail hclose, if_pos rfl]
    rfl

end Output

/-- What stands before the last tree is written as in the source, and the last tree is escaped. -/
theorem toHtml_expressionLine (he : IsExpression e) :
    ∃ ys s, lineTrees (expressionLine e) = ys ++ [.leaf (.text (String.ofList
        ((expressionLine e).drop s))) ⟨s, (expressionLine e).length⟩] ∧
      TreeTiles (expressionLine e) 8 0 ys s ∧ s ≤ 8 + e.length ∧
      (toHtml (shield 0 0 (events (expressionLine e)))).toList =
        "<p>".toList ++ ys.flatMap (Tree.source (expressionLine e).toArray) ++
          ((expressionLine e).drop s).flatMap bodyChar ++ "</p>\n".toList := by
  obtain ⟨ys, s, htrees, hys, hs⟩ := (framed_expressionLine he).inlineTrees
    ⟨(expressionLine e).toArray, [], []⟩ rfl rfl
  refine ⟨ys, s, htrees, hys, hs, ?_⟩
  have hevents : events (expressionLine e) = withSource (expressionLine e).toArray
      (eventsAt (expressionLine e)) := rfl
  have hparagraph := eventsAt_letter (c := 'S') rfl (oneLine_expressionLine he)
  change eventsAt (expressionLine e) = (.enter .paragraph, ⟨0, (expressionLine e).length⟩) ::
    (eventsOf (lineTrees (expressionLine e)) ++
      [(.leave .paragraph, ⟨0, (expressionLine e).length⟩)]) at hparagraph
  have hlast : slice (expressionLine e).toArray ⟨s, (expressionLine e).length⟩ =
      (expressionLine e).drop s := by
    rw [slice_toArray]
    exact between_eq_drop (Nat.le_refl _)
  have hwhole : countExpressions 0
      (slice (expressionLine e).toArray ⟨0, (expressionLine e).length⟩) = 0 := by
    have hopen := openMarker_occurs (e := e) (j := (expressionLine e).length)
      (by rw [length_expressionLine]; omega)
    rw [slice_toArray]
    refine countExpressions_both 0 hopen ?_
    rw [between_eq_drop (Nat.le_refl _)]
    exact closeMarker_occurs (Nat.zero_le _)
  have hend : withSource (expressionLine e).toArray (eventsOf [.leaf (.text (String.ofList
        ((expressionLine e).drop s))) ⟨s, (expressionLine e).length⟩]) ++
      withSource (expressionLine e).toArray
        [(.leave .paragraph, ⟨0, (expressionLine e).length⟩)] =
      (.text (String.ofList ((expressionLine e).drop s)), (expressionLine e).drop s) ::
        [(.leave .paragraph, slice (expressionLine e).toArray
          ⟨0, (expressionLine e).length⟩)] := by
    simp [eventsOf, Tree.events, hlast]
  have hshield : shield 0 0 (events (expressionLine e)) = .enter .paragraph ::
      (ys.map fun t => .inlineHtml (String.ofList (t.source (expressionLine e).toArray))) ++
        [.text (String.ofList ((expressionLine e).drop s)), .leave .paragraph] := by
    rw [hevents, hparagraph, lineTrees, htrees, withSource_cons, withSource_append, eventsOf_append,
      withSource_append, List.append_assoc, shield, if_neg (Nat.lt_irrefl 0)]
    dsimp only
    rw [hwhole, if_pos rfl, hend, shield_expressionLine he hys hs]
    rfl
  rw [hshield]
  have hhtml := toHtml_paragraph (ys.map (Tree.source (expressionLine e).toArray))
    ((expressionLine e).drop s)
  rwa [List.map_map, ← List.flatMap_def] at hhtml

/-! ## The expression in the output -/

theorem flatMap_source (src : List Char) (ts : List Tree) :
    ts.flatMap (Tree.source src.toArray) =
      ts.flatMap fun t => between src t.span.start t.span.stop := by
  congr 1
  funext t
  rw [Tree.source, slice_toArray]

theorem source_last (src : List Char) (e : Event) (s : Nat) :
    Tree.source src.toArray (.leaf e ⟨s, src.length⟩) = src.drop s := by
  rw [Tree.source, slice_toArray]
  exact between_eq_drop (Nat.le_refl _)

/-- Before a place, the line is made of what was read from it. -/
theorem between_append_drop (s : Nat) :
    between (expressionLine e) 0 s ++ (expressionLine e).drop s = expressionLine e :=
  List.take_append_drop s _

/-- Between the words, the output has one expression, made of what was read from `e`. -/
theorem exists_output_expression (he : IsExpression e) {ys : List Tree} {s : Nat}
    (hys : TreeTiles (expressionLine e) 8 0 ys s) (hs : s ≤ 8 + e.length) :
    ∃ x, '\x7b' ∉ x ∧ '\x7d' ∉ x ∧
      ys.flatMap (Tree.source (expressionLine e).toArray) ++
        ((expressionLine e).drop s).flatMap bodyChar = lineHead ++ x ++ lineTail := by
  have hdrop : ((expressionLine e).drop s).flatMap bodyChar =
      (between (expressionLine e) s (8 + e.length)).flatMap bodyChar ++ lineTail := by
    have hplace : s + (8 + e.length - s) = 8 + e.length := by omega
    have hsplit := List.take_append_drop (8 + e.length - s) ((expressionLine e).drop s)
    rw [List.drop_drop, hplace, drop_expressionLine] at hsplit
    rw [← hsplit, List.flatMap_append]
    rfl
  have hhead : between (expressionLine e) 0 8 = lineHead := by
    rw [expressionLine, List.append_assoc]
    rfl
  cases hys with
  | nil h =>
    obtain rfl := eq_zero_of_gap h
    refine ⟨(between (expressionLine e) 8 (8 + e.length)).flatMap bodyChar,
      fun h => no_open_between he (Nat.le_refl 8) (mem_flatMap_bodyChar (.inl rfl) h),
      fun h => no_close_between he (Nat.le_refl _) (mem_flatMap_bodyChar (.inr rfl) h), ?_⟩
    rw [hdrop, ← between_append (Nat.zero_le 8) (Nat.le_add_right 8 e.length), hhead,
      List.flatMap_append]
    rfl
  | @cons _ _ y ys h hlt hy hys =>
    have hsource : y.source (expressionLine e).toArray =
        lineHead ++ between (expressionLine e) 8 y.span.stop := by
      rw [Tree.source, slice_toArray, eq_zero_of_gap h, ← hhead,
        between_append (Nat.zero_le 8) hy.1]
    have hmiddle : ∀ t ∈ ys, '\x7b' ∉ t.source (expressionLine e).toArray ∧
        '\x7d' ∉ t.source (expressionLine e).toArray := by
      intro t ht
      obtain ⟨hstart, hstop⟩ := hys.bounds t ht
      rw [Tree.source, slice_toArray]
      exact ⟨no_open_between he (Nat.le_trans hy.1 hstart),
        no_close_between he (Nat.le_trans hstop hs)⟩
    have hstop := Nat.le_trans hy.1 hys.le
    refine ⟨between (expressionLine e) 8 y.span.stop ++
      ys.flatMap (Tree.source (expressionLine e).toArray) ++
      (between (expressionLine e) s (8 + e.length)).flatMap bodyChar, ?_, ?_, ?_⟩
    · simp only [List.mem_append, not_or]
      refine ⟨⟨no_open_between he (Nat.le_refl 8), fun h => ?_⟩,
        fun h => no_open_between he hstop (mem_flatMap_bodyChar (.inl rfl) h)⟩
      obtain ⟨t, ht, hmem⟩ := List.mem_flatMap.1 h
      exact (hmiddle t ht).1 hmem
    · simp only [List.mem_append, not_or]
      refine ⟨⟨no_close_between he (Nat.le_trans hys.le hs), fun h => ?_⟩,
        fun h => no_close_between he (Nat.le_refl _) (mem_flatMap_bodyChar (.inr rfl) h)⟩
      obtain ⟨t, ht, hmem⟩ := List.mem_flatMap.1 h
      exact (hmiddle t ht).2 hmem
    · rw [List.flatMap_cons, hsource, hdrop]
      simp only [List.append_assoc]

/-- The expression is in the output if and only if the output is the line, within a paragraph. -/
theorem infix_output_iff (he : IsExpression e) {x : List Char} (hopen : '\x7b' ∉ x)
    (hclose : '\x7d' ∉ x) :
    (openMarker ++ (' ' :: e ++ [' ']) ++ closeMarker) <:+:
        ("<p>".toList ++ (lineHead ++ x ++ lineTail) ++ "</p>\n".toList) ↔
      lineHead ++ x ++ lineTail = expressionLine e := by
  have houtput : "<p>".toList ++ (lineHead ++ x ++ lineTail) ++ "</p>\n".toList =
      ("<p>".toList ++ ['S', 'o', 'm', 'e', ' ']) ++ openMarker ++ (' ' :: x ++ [' ']) ++
        closeMarker ++ ([' ', 't', 'e', 'x', 't'] ++ "</p>\n".toList) := by
    simp [lineHead, lineTail, openMarker, closeMarker]
  have hblank : ∀ {c : Char} {s : List Char}, c ≠ ' ' → c ∉ s → c ∉ ' ' :: s ++ [' '] := by
    intro c s hc hs
    simpa [hc] using hs
  rw [houtput, infix_iff_eq ⟨hblank (by decide) hopen, hblank (by decide) hclose⟩
    ⟨hblank (by decide) fun h => (he _ h).1 rfl, hblank (by decide) fun h => (he _ h).2.1 rfl⟩
    (by decide +kernel) (by decide +kernel), expressionLine, List.append_left_inj,
    List.cons_inj_right, List.append_left_inj, List.append_right_inj]

/-- Escaping the last tree gives the line if and only if it is not needed. -/
theorem escaped_eq_iff {ys : List Tree} {s : Nat}
    (hys : TreeTiles (expressionLine e) 8 0 ys s) :
    ys.flatMap (Tree.source (expressionLine e).toArray) ++
        ((expressionLine e).drop s).flatMap bodyChar = expressionLine e ↔
      ys.flatMap (Tree.source (expressionLine e).toArray) ++ (expressionLine e).drop s =
          expressionLine e ∧
        ((expressionLine e).drop s).flatMap bodyChar = (expressionLine e).drop s := by
  constructor
  · intro h
    have hfilter := congrArg List.length hys.sources.2
    rw [← flatMap_source, ← List.countP_eq_length_filter, ← List.countP_eq_length_filter] at hfilter
    have hcount := congrArg (List.countP (· != '\\')) (h.trans (between_append_drop s).symm)
    rw [List.countP_append, List.countP_append] at hcount
    have hkeeps := (countP_flatMap_bodyChar ((expressionLine e).drop s)).2 (by omega)
    have heq := flatMap_bodyChar_of_keepsChar hkeeps
    rw [heq] at h
    exact ⟨h, heq⟩
  · rintro ⟨h, heq⟩
    rwa [heq]

/-! ## Rendering -/

/-- The expression is in the page if and only if the sources of the trees make the line and the last
one needs no escaping. -/
theorem infix_toHtml_iff (he : IsExpression e) :
    ∃ ys s, lineTrees (expressionLine e) = ys ++ [.leaf (.text (String.ofList
        ((expressionLine e).drop s))) ⟨s, (expressionLine e).length⟩] ∧
      TreeTiles (expressionLine e) 8 0 ys s ∧
      ((openMarker ++ (' ' :: e ++ [' ']) ++ closeMarker) <:+:
          (toHtml (shield 0 0 (events (expressionLine e)))).toList ↔
        ys.flatMap (Tree.source (expressionLine e).toArray) ++ (expressionLine e).drop s =
            expressionLine e ∧
          ((expressionLine e).drop s).flatMap bodyChar = (expressionLine e).drop s) := by
  obtain ⟨ys, s, htrees, hys, hs, hhtml⟩ := toHtml_expressionLine he
  obtain ⟨x, hopen, hclose, hx⟩ := exists_output_expression he hys hs
  refine ⟨ys, s, htrees, hys, ?_⟩
  rw [hhtml, List.append_assoc "<p>".toList, hx, infix_output_iff he hopen hclose, ← hx,
    escaped_eq_iff hys]

theorem toList_expression (e : String) :
    ("\x7b\x7b " ++ e ++ " \x7d\x7d").toList =
      openMarker ++ (' ' :: e.toList ++ [' ']) ++ closeMarker := by
  simp [openMarker, closeMarker]

theorem toList_line (e : String) :
    ("Some \x7b\x7b " ++ e ++ " \x7d\x7d text").toList = expressionLine e.toList := by
  simp [expressionLine, lineHead, lineTail]

/-- An expression comes through as it was written if and only if each backslash of it belongs to a
tree, and escaping does not change the last tree, which closes the expression. -/
theorem render_expression (e : String) (he : IsExpression e.toList) :
    let line := expressionLine e.toList
    ("\x7b\x7b " ++ e ++ " \x7d\x7d").toList <:+:
        (render ("Some \x7b\x7b " ++ e ++ " \x7d\x7d text")).toList ↔
      (lineTrees line).flatMap (Tree.source line.toArray) = line ∧
        ∀ t ∈ (lineTrees line).getLast?,
          (t.source line.toArray).flatMap bodyChar = t.source line.toArray := by
  intro line
  obtain ⟨ys, s, htrees, -, hiff⟩ := infix_toHtml_iff he
  rw [toList_expression, render, toList_line, hiff, htrees, List.flatMap_append,
    List.flatMap_singleton, source_last, List.getLast?_append]
  simp [line, source_last]

/-- The emphasis and the text before it are written from the source, so `&` is not escaped. -/
theorem render_expression_emphasis :
    IsExpression "a && *b*".toList ∧
      "\x7b\x7b a && *b* \x7d\x7d".toList <:+:
        (render "Some \x7b\x7b a && *b* \x7d\x7d text").toList :=
  ⟨by decide +kernel, (render_expression "a && *b*" (by decide +kernel)).2 (by decide +kernel)⟩

/-- The text that closes an expression is escaped. -/
theorem render_escapes_expression :
    IsExpression "a > b".toList ∧
      ¬"\x7b\x7b a > b \x7d\x7d".toList <:+:
        (render "Some \x7b\x7b a > b \x7d\x7d text").toList := by
  decide +kernel

/-- An expression without backslashes and characters that are escaped comes through, whatever it
means in Markdown. -/
theorem render_plain_expression (e : String) (he : IsExpression e.toList)
    (hslash : '\\' ∉ e.toList) (hkeeps : ∀ c ∈ e.toList, KeepsChar c) :
    ("\x7b\x7b " ++ e ++ " \x7d\x7d").toList <:+:
      (render ("Some \x7b\x7b " ++ e ++ " \x7d\x7d text")).toList := by
  obtain ⟨ys, s, -, hys, hiff⟩ := infix_toHtml_iff he
  have hline : ∀ c ∈ expressionLine e.toList, c ≠ '\\' ∧ KeepsChar c := by
    have hends : ∀ c ∈ lineHead ++ lineTail, c ≠ '\\' ∧ KeepsChar c := by
      simp [lineHead, lineTail, KeepsChar, bodyChar]
    intro c hc
    simp only [expressionLine, List.mem_append] at hc hends
    rcases hc with (hc | hc) | hc
    · exact hends c (.inl hc)
    · exact ⟨fun h => hslash (h ▸ hc), hkeeps c hc⟩
    · exact hends c (.inr hc)
  rw [toList_expression, render, toList_line, hiff, flatMap_source, hys.sources_eq]
  · exact ⟨between_append_drop s,
      flatMap_bodyChar_of_keepsChar fun c hc => (hline c (List.mem_of_mem_drop hc)).2⟩
  · intro h
    obtain ⟨n, -, -, hn⟩ := mem_between h
    exact (hline _ (List.mem_of_getElem? hn)).1 rfl

end StaticSite.Markdown

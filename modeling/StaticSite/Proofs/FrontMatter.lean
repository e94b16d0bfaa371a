import Mathlib.Data.List.Basic
import Mathlib.Data.List.TakeWhile
import StaticSite.FrontMatter

/-!
# Where the front matter ends

The lines of a text are the stretches between its line feeds (`lineAt_iff`), so the block that
`FrontMatter.split` takes off lies between the first line and the first line behind it that ends a
block, and these two lines, the block and the body make up the text
(`split_block_or_whole`).
-/

namespace StaticSite

namespace FrontMatter

open StaticSite.Text

/-! ## Lines -/

/-- A line of the text, with the line feed that ends it, stands between `before` and `after`. Only
the last line has no line feed. -/
structure LineAt (text before line after : List Char) : Prop where
  /-- The parts make up the text. -/
  eq : text = before ++ line ++ after
  /-- The line starts where the text starts or behind a line feed. -/
  start : before = [] ∨ before.getLast? = some '\n'
  /-- The line ends in its only line feed, or where the text ends. -/
  ends : (∃ s, line = s ++ ['\n'] ∧ '\n' ∉ s) ∨ '\n' ∉ line ∧ after = []

theorem lines_of_not_mem {s : List Char} (h : '\n' ∉ s) : lines s = [s] := by
  induction s with
  | nil => rfl
  | cons c s ih =>
    obtain ⟨hc, hs⟩ := List.ne_and_not_mem_of_not_mem_cons h
    rw [lines, if_neg (Ne.symm hc), ih hs]

/-- A line feed ends the line before it. -/
theorem lines_append_cons {s : List Char} (h : '\n' ∉ s) (t : List Char) :
    lines (s ++ '\n' :: t) = (s ++ ['\n']) :: lines t := by
  induction s with
  | nil => rw [List.nil_append, lines, if_pos rfl, List.nil_append]
  | cons c s ih =>
    obtain ⟨hc, hs⟩ := List.ne_and_not_mem_of_not_mem_cons h
    rw [List.cons_append, lines, if_neg (Ne.symm hc), ih hs, List.cons_append]

/-- A text has a single line, or its first line ends in a line feed. -/
theorem lines_cases (text : List Char) :
    '\n' ∉ text ∧ lines text = [text] ∨
      ∃ s t, text = s ++ '\n' :: t ∧ '\n' ∉ s ∧ lines text = (s ++ ['\n']) :: lines t := by
  by_cases h : '\n' ∈ text
  · obtain ⟨s, t, rfl, hs⟩ := List.eq_append_cons_of_mem h
    exact .inr ⟨s, t, rfl, hs, lines_append_cons hs t⟩
  · exact .inl ⟨h, lines_of_not_mem h⟩

/-- Where a line starts, the lines of a text are those before and those behind. -/
theorem exists_lines_append {before : List Char}
    (h : before = [] ∨ before.getLast? = some '\n') (t : List Char) :
    ∃ ls, ls.flatten = before ∧ lines (before ++ t) = ls ++ lines t := by
  induction hn : before.length using Nat.strongRecOn generalizing before with
  | ind n ih =>
    rcases h with rfl | h
    · exact ⟨[], rfl, rfl⟩
    obtain ⟨s, u, rfl, hs⟩ := List.eq_append_cons_of_mem (List.mem_of_getLast? h)
    have hu : u = [] ∨ u.getLast? = some '\n' := by
      rcases u with _ | ⟨c, u⟩
      · exact .inl rfl
      · refine .inr ?_
        rwa [List.getLast?_append_of_ne_nil _ (List.cons_ne_nil _ _), List.getLast?_cons_cons] at h
    obtain ⟨ls, hls, hlines⟩ := ih u.length (by rw [← hn]; simp; omega) hu rfl
    refine ⟨(s ++ ['\n']) :: ls, ?_, ?_⟩
    · rw [List.flatten_cons, hls, List.append_assoc, List.singleton_append]
    · rw [List.append_assoc, List.cons_append, lines_append_cons hs, hlines, List.cons_append]

theorem lineAt_of_lines {ls ls' : List (List Char)} {text line : List Char}
    (h : lines text = ls ++ line :: ls') : LineAt text ls.flatten line ls'.flatten := by
  induction ls generalizing text with
  | nil =>
    rcases lines_cases text with ⟨hn, hl⟩ | ⟨s, t, rfl, hs, hl⟩
    · obtain ⟨rfl, rfl⟩ := List.cons.inj (hl.symm.trans h)
      exact ⟨by simp, .inl rfl, .inr ⟨hn, rfl⟩⟩
    · obtain ⟨rfl, rfl⟩ := List.cons.inj (hl.symm.trans h)
      exact ⟨by simp, .inl rfl, .inl ⟨s, rfl, hs⟩⟩
  | cons l ls ih =>
    rcases lines_cases text with ⟨hn, hl⟩ | ⟨s, t, rfl, hs, hl⟩
    · obtain ⟨-, hnil⟩ := List.cons.inj (hl.symm.trans h)
      exact absurd hnil.symm (List.append_ne_nil_of_right_ne_nil _ (List.cons_ne_nil _ _))
    · obtain ⟨rfl, ht⟩ := List.cons.inj (hl.symm.trans h)
      obtain ⟨heq, hstart, hends⟩ := ih ht
      refine ⟨?_, .inr ?_, hends⟩
      · rw [List.flatten_cons, heq]
        simp
      · rw [List.flatten_cons]
        rcases hstart with hnil | hlast
        · rw [hnil, List.append_nil, List.getLast?_concat]
        · have hne : ls.flatten ≠ [] := fun hnil => by simp [hnil] at hlast
          rwa [List.getLast?_append_of_ne_nil _ hne]

/-- The lines of a text are what stands between its line feeds. -/
theorem lineAt_iff {text before line after : List Char} :
    LineAt text before line after ↔
      ∃ ls ls', lines text = ls ++ line :: ls' ∧ ls.flatten = before ∧ ls'.flatten = after := by
  constructor
  · rintro ⟨rfl, hstart, hends⟩
    obtain ⟨ls, hls, hlines⟩ := exists_lines_append hstart (line ++ after)
    rw [List.append_assoc, hlines]
    rcases hends with ⟨s, rfl, hs⟩ | ⟨hn, rfl⟩
    · refine ⟨ls, lines after, ?_, hls, flatten_lines after⟩
      rw [List.append_assoc, List.singleton_append, lines_append_cons hs]
    · refine ⟨ls, [], ?_, hls, rfl⟩
      rw [List.append_nil, lines_of_not_mem hn]
  · rintro ⟨ls, ls', h, rfl, rfl⟩
    exact lineAt_of_lines h

/-! ## Blocks -/

/-- The line ends a block: it is `---` or `...` in front of blanks. -/
def Closes (line : List Char) : Prop :=
  trimEnd line = ['-', '-', '-'] ∨ trimEnd line = ['.', '.', '.']

theorem isClosing_iff {line : List Char} : isClosing line = true ↔ Closes line := by
  rw [isClosing, Bool.or_eq_true, beq_iff_eq, beq_iff_eq, Closes]

/-- The line feed does not matter for what a line is. -/
theorem trimEnd_concat_newline (s : List Char) : trimEnd (s ++ ['\n']) = trimEnd s := by
  rw [trimEnd, trimEnd, List.reverse_append, List.reverse_singleton, List.singleton_append,
    List.dropWhile_cons_of_pos (by decide)]

/-- The text is a first line `---`, a block, the first later line that ends a block, and a body.
Each of the two lines comes with its line feed, which the later one has not if it is the last. -/
structure Framed (text first block line body : List Char) : Prop where
  /-- The four parts make up the text. -/
  eq : text = first ++ block ++ line ++ body
  /-- The first line ends in a line feed and is `---`. -/
  opening : ∃ s, first = s ++ ['\n'] ∧ '\n' ∉ s ∧ trimEnd s = ['-', '-', '-']
  /-- A line of the text stands between the block and the body. -/
  lineAt : LineAt text (first ++ block) line body
  /-- The line ends a block. -/
  closes : Closes line
  /-- No line between the two does. -/
  least : ∀ before line' after, LineAt text before line' after → before ≠ [] → Closes line' →
    (first ++ block).length ≤ before.length

/-- The first line of the text ends in a line feed and is `---`, and a later line ends a block. -/
def HasBlock (text : List Char) : Prop :=
  (∃ s rest, text = s ++ '\n' :: rest ∧ '\n' ∉ s ∧ trimEnd s = ['-', '-', '-']) ∧
    ∃ before line after, LineAt text before line after ∧ before ≠ [] ∧ Closes line

/-- What a test picks from the start of a list does not reach a later element that fails it. -/
theorem takeWhile_isPrefix_of_append {α : Type} {p : α → Bool} {xs ys : List α} {x : α}
    (hx : p x = false) : (xs ++ x :: ys).takeWhile p <+: xs := by
  rw [List.takeWhile_append, List.takeWhile_cons_of_neg (by simp [hx]), List.append_nil]
  split
  · exact List.prefix_rfl
  · exact List.takeWhile_prefix p

theorem length_flatten_le_of_isPrefix {ls ls' : List (List Char)} (h : ls <+: ls') :
    ls.flatten.length ≤ ls'.flatten.length := by
  obtain ⟨rs, rfl⟩ := h
  rw [List.flatten_append, List.length_append]
  exact Nat.le_add_right _ _

/-- A later line of a text is one of the lines behind the first. -/
theorem exists_lines_of_lineAt {text before line after first : List Char} {rest : List (List Char)}
    (h : LineAt text before line after) (hlines : lines text = first :: rest)
    (hne : before ≠ []) :
    ∃ ls ls', rest = ls ++ line :: ls' ∧ before = first ++ ls.flatten := by
  obtain ⟨ls, ls', hls, rfl, -⟩ := lineAt_iff.1 h
  rcases ls with _ | ⟨l, ls⟩
  · exact absurd rfl hne
  · obtain ⟨rfl, rfl⟩ := List.cons.inj (hlines.symm.trans hls)
    exact ⟨ls, ls', rfl, rfl⟩

/-- If the first line opens a block and a later line ends it, the text is framed as it is split. -/
theorem framed_of_lines {text first line : List Char} {rest body : List (List Char)}
    (hlines : lines text = first :: rest) (hopen : isOpening first = true)
    (hdrop : rest.dropWhile (!isClosing ·) = line :: body) :
    Framed text first (rest.takeWhile (!isClosing ·)).flatten line body.flatten := by
  have hrest : rest = rest.takeWhile (!isClosing ·) ++ line :: body := by
    rw [← hdrop, List.takeWhile_append_dropWhile]
  have hsplit : lines text = (first :: rest.takeWhile (!isClosing ·)) ++ line :: body := by
    rw [hlines, List.cons_append, ← hrest]
  have hline :
      LineAt text (first ++ (rest.takeWhile (!isClosing ·)).flatten) line body.flatten :=
    lineAt_of_lines hsplit
  have hclosing : isClosing line = true := by
    have := List.head?_dropWhile_not (!isClosing ·) rest
    rw [hdrop] at this
    simpa using this
  refine ⟨hline.eq, ?_, hline, isClosing_iff.1 hclosing, fun before line' after h hne hc => ?_⟩
  · rcases lines_cases text with ⟨-, hl⟩ | ⟨s, t, -, hs, hl⟩
    · obtain ⟨-, rfl⟩ := List.cons.inj (hl.symm.trans hlines)
      cases hdrop
    · obtain ⟨rfl, -⟩ := List.cons.inj (hl.symm.trans hlines)
      refine ⟨s, rfl, hs, ?_⟩
      rwa [isOpening, beq_iff_eq, trimEnd_concat_newline] at hopen
  · obtain ⟨ls, ls', hls, rfl⟩ := exists_lines_of_lineAt h hlines hne
    have hprefix : rest.takeWhile (!isClosing ·) <+: ls := by
      rw [hls]
      exact takeWhile_isPrefix_of_append (by simp [isClosing_iff.2 hc])
    rw [List.length_append, List.length_append]
    exact Nat.add_le_add_left (length_flatten_le_of_isPrefix hprefix) _

/-- A text with a block has a first line that opens it and a later line that ends it. -/
theorem HasBlock.exists_lines {text : List Char} (h : HasBlock text) :
    ∃ first rest, lines text = first :: rest ∧ isOpening first = true ∧
      rest.dropWhile (!isClosing ·) ≠ [] := by
  obtain ⟨⟨s, t, rfl, hs, hopen⟩, before, line, after, hline, hne, hc⟩ := h
  have hlines := lines_append_cons hs t
  refine ⟨s ++ ['\n'], lines t, hlines, ?_, fun hnil => ?_⟩
  · rw [isOpening, beq_iff_eq, trimEnd_concat_newline, hopen]
  · obtain ⟨ls, ls', hls, -⟩ := exists_lines_of_lineAt hline hlines hne
    have hall := List.dropWhile_eq_nil_iff.1 hnil line (by simp [hls])
    rw [isClosing_iff.2 hc] at hall
    cases hall

theorem split_of_hasBlock {raw : List Char} (h : HasBlock (dropMark raw)) :
    ∃ first block line body, Framed (dropMark raw) first block line body ∧
      split raw = (some block, body) := by
  obtain ⟨first, rest, hlines, hopen, hne⟩ := h.exists_lines
  obtain ⟨line, body, hdrop⟩ := List.exists_cons_of_ne_nil hne
  refine ⟨first, _, line, _, framed_of_lines hlines hopen hdrop, ?_⟩
  simp only [split, hlines, hopen, hdrop, if_true]

theorem Framed.hasBlock {text first block line body : List Char}
    (h : Framed text first block line body) : HasBlock text := by
  obtain ⟨s, rfl, hs, hopen⟩ := h.opening
  refine ⟨⟨s, block ++ line ++ body, ?_, hs, hopen⟩, _, line, body, h.lineAt, by simp, h.closes⟩
  rw [h.eq]
  simp

theorem split_of_not_hasBlock {raw : List Char} (h : ¬HasBlock (dropMark raw)) :
    split raw = (none, raw) := by
  unfold split
  split
  · rfl
  · rename_i first rest hlines
    split
    · rename_i hopen
      split
      · rfl
      · rename_i line body hdrop
        exact absurd (framed_of_lines hlines hopen hdrop).hasBlock h
    · rfl

/-- A text with a block is taken apart into its first line, the block, the line that ends it, and
the body; any other text is all body, with its byte-order mark. -/
theorem split_block_or_whole (raw : List Char) :
    HasBlock (dropMark raw) ∧
        (∃ first block line body, Framed (dropMark raw) first block line body ∧
          split raw = (some block, body)) ∨
      ¬HasBlock (dropMark raw) ∧ split raw = (none, raw) := by
  by_cases h : HasBlock (dropMark raw)
  · exact .inl ⟨h, split_of_hasBlock h⟩
  · exact .inr ⟨h, split_of_not_hasBlock h⟩

example : split ['\ufeff', '-', '-', '-', '\r', '\n', 'a', '\n', '.', '.', '.', '\u2003'] =
    (some ['a', '\n'], []) := by decide

end FrontMatter

end StaticSite

import StaticSite.Proofs.Markdown.Tiling

/-!
# Paragraphs of one line

A line that starts with a letter starts no block but a paragraph: everything else that a line can be
is told by a first character that is none. So the events of a document that is such a line are those
of its text, with a paragraph around them.
-/

namespace StaticSite.Markdown

open Reading Text

variable {c : Char} {s : List Char}

/-- A text without line ends is one line. -/
theorem linesFrom_of_oneLine (start : Nat) (before : List Char) (hs : ∀ d ∈ s, d ≠ '\n' ∧ d ≠ '\r')
    (hne : before ≠ [] ∨ s ≠ []) :
    linesFrom start before s = [⟨start, before.reverse ++ s, []⟩] := by
  fun_induction linesFrom start before s with
  | case1 start before hempty => simp_all
  | case2 start before hbefore => simp
  | case3 => exact absurd rfl (hs '\r' List.mem_cons_self).2
  | case4 => exact absurd rfl (hs '\r' List.mem_cons_self).2
  | case5 => exact absurd rfl (hs '\n' List.mem_cons_self).1
  | case6 start before c s _ _ _ ih =>
    rw [ih (fun d hd => hs d (List.mem_cons_of_mem _ hd)) (.inl (List.cons_ne_nil _ _)),
      List.reverse_cons, List.append_assoc, List.singleton_append]

/-- The trees of a line in a document without definitions. -/
def lineTrees (s : List Char) : List Tree := inlineTrees ⟨s.toArray, [], []⟩ (glyphsAt 0 s)

/-- The start of a document that is one line. -/
abbrev lineStart (c : Char) (s : List Char) : Cursor := .ofLine ⟨0, c :: s, []⟩

section Letter

variable (hc : c.isAlpha = true)

include hc

theorem ne_of_isAlpha {d : Char} (hd : d.isAlpha = false) : c ≠ d := by
  rintro rfl
  rw [hc] at hd
  cases hd

theorem isDigit_of_isAlpha : c.isDigit = false := by
  have hletter : decide (c.val ≥ 'A'.val ∧ c.val ≤ 'Z'.val) = true ∨
      (decide (c.val ≥ 'a'.val) && decide (c.val ≤ 'z'.val)) = true := Bool.or_eq_true_iff.1 hc
  show (decide (c.val ≥ '0'.val) && decide (c.val ≤ '9'.val)) = false
  grind

theorem skipUpTo_letter : (lineStart c s).skipUpTo 4 = (0, lineStart c s) := by
  have hblank := ne_of_isAlpha hc (d := ' ') rfl
  have htab := ne_of_isAlpha hc (d := '\t') rfl
  simp [Cursor.skipUpTo, Cursor.skipColumns, Cursor.ofLine, Cursor.passColumns, hblank, htab]

theorem isBlank_letter : (lineStart c s).isBlank = false := by
  simp [Cursor.isBlank, Cursor.ofLine, isBlankLine, isLineSpace, ne_of_isAlpha hc]

theorem marker?_letter : marker? (c :: s) = none := by
  have hbullet : isBullet c = false := by simp [isBullet, ne_of_isAlpha hc]
  simp [marker?, hbullet, isDigit_of_isAlpha hc]

/-- A line that starts with a letter opens no further blocks. -/
theorem openBlocks_letter (fuel : Nat) (r : Reading) :
    openBlocks ⟨0, c :: s, []⟩ (fuel + 1) r (lineStart c s) 0 = (r, some (lineStart c s, 0)) := by
  have hrest : (lineStart c s).rest = c :: s := rfl
  have hfootnote : footnoteStart? (c :: s) = none := by
    simp [footnoteStart?, ne_of_isAlpha hc (d := '[') rfl]
  have hitem : (lineStart c s).listMarker? 0 = none := by
    rw [Cursor.listMarker?, hrest, marker?_letter hc]
  have hquote : (lineStart c s).quoteMarker? = none := by
    simp [Cursor.quoteMarker?, Cursor.ofLine, ne_of_isAlpha hc (d := '>') rfl]
  rw [openBlocks, skipUpTo_letter hc]
  dsimp only
  rw [if_neg (by decide), hrest, hfootnote]
  dsimp only
  rw [hitem, hquote]

/-- The last line starts a paragraph if it starts with a letter. -/
theorem startLeaf_letter (r : Reading) (indent spaces : Nat) :
    r.startLeaf ⟨0, c :: s, []⟩ (lineStart c s) indent spaces [] =
      { r with leaf := some (.paragraph 0 r.box [glyphsAt 0 (c :: s)]), box := none } := by
  have hrest : (lineStart c s).rest = c :: s := rfl
  have hhtml : htmlBlock? (c :: s) = none := by
    simp [htmlBlock?, ne_of_isAlpha hc (d := '<') rfl]
  have hbreak : isThematicBreak (c :: s) = false := by simp [isThematicBreak, ne_of_isAlpha hc]
  have hheading : headingLevel? (c :: s) = none := by
    simp [headingLevel?, countStart, ne_of_isAlpha hc]
  have hfence : fence? (c :: s) = none := by simp [fence?, ne_of_isAlpha hc]
  have hdefinition : r.readDefinition? ⟨0, c :: s, []⟩ (lineStart c s) [] = none := by
    simp [Reading.readDefinition?, Cursor.ofLine, ne_of_isAlpha hc]
  have htable : (if endsWithBackslash (lineStart c s).rest then none
      else r.tableHead? (lineStart c s).rest ([] : List Line).head?) = none := by
    split
    · rfl
    · rfl
  rw [startLeaf, hrest, hhtml, hbreak]
  simp only [Bool.false_eq_true, if_false]
  rw [hheading, hfence]
  dsimp only
  rw [hdefinition, Option.getD_none, startText, htable]
  simp [lineGlyphs, Cursor.ofLine]

theorem readLines_letter :
    ({} : Reading).readLines [⟨0, c :: s, []⟩] =
      { leaf := some (.paragraph 0 none [glyphsAt 0 (c :: s)]) } := by
  have hpass : ({} : Reading).pass ⟨0, c :: s, []⟩ = (0, lineStart c s) := rfl
  have hfresh : ({} : Reading).readLines [⟨0, c :: s, []⟩] =
      ({} : Reading).readFresh ⟨0, c :: s, []⟩ [] := rfl
  rw [hfresh, readFresh, hpass]
  dsimp only [List.length_nil, Nat.sub_zero, Reading.closeBlocks]
  rw [openBlocks_letter hc]
  dsimp only
  rw [isBlank_letter hc, skipUpTo_letter hc]
  simp only [Bool.false_eq_true, if_false]
  rw [if_neg (by decide), startLeaf_letter hc]
  rfl

/-- A document of one line that starts with a letter is a paragraph. -/
theorem eventsAt_letter (hline : ∀ d ∈ c :: s, d ≠ '\n' ∧ d ≠ '\r') :
    eventsAt (c :: s) = (.enter .paragraph, ⟨0, (c :: s).length⟩) ::
      (eventsOf (lineTrees (c :: s)) ++ [(.leave .paragraph, ⟨0, (c :: s).length⟩)]) := by
  have hlines : linesOf (c :: s) = [⟨0, c :: s, []⟩] :=
    linesFrom_of_oneLine 0 [] hline (.inr (List.cons_ne_nil _ _))
  have hjoin : joinLines [glyphsAt 0 (c :: s)] = glyphsAt 0 (c :: s) := by
    rw [joinLines, if_neg]
    · simp
    · intro h
      rw [← List.getLast?_map] at h
      simp only [List.reverse_singleton, List.flatten_singleton, map_char_glyphsAt] at h
      exact (hline _ (List.mem_of_getLast? h)).1 rfl
  rw [eventsAt, hlines, readLines_letter hc]
  simp only [finish, closeLeaf, Reading.add, Reading.closeBlocks, hjoin, List.length_nil,
    List.reverse_singleton, treesOf, Block.trees, List.append_nil]
  simp [eventsOf, Tree.events, lineTrees]

end Letter

end StaticSite.Markdown

/-!
# Places in a YAML text

A text is read after its line breaks were made alike. A *cursor* stands before the rest of the text
and knows its column, which decides how deep a block is nested, and its line and distance from the
start, which decide whether a key is still short enough to need no mark.
-/

namespace StaticSite.Yaml

/-- Makes carriage returns and next-line characters line feeds. -/
def normalizeBreaks : List Char → List Char
  | [] => []
  | '\r' :: '\n' :: s => '\n' :: normalizeBreaks s
  | c :: s => (if c = '\r' ∨ c = '\u0085' then '\n' else c) :: normalizeBreaks s

/-- Whether a character may stand in a text. -/
def isAllowed (c : Char) : Bool :=
  c == '\t' || c == '\n' || c == '\r' || (' ' ≤ c && c ≤ '~') || c == '\u0085' ||
    ('\u00a0' ≤ c && c ≤ '\ufffd') || 0x10000 ≤ c.toNat

/-- A line break, where line feeds stand for all breaks but the separators of lines and paragraphs.
-/
def isBreak (c : Char) : Bool := c == '\n' || c == '\u2028' || c == '\u2029'

/-- A space or a tab. -/
def isGap (c : Char) : Bool := c == ' ' || c == '\t'

/-- A character of the names of anchors and tag handles. -/
def isNameChar (c : Char) : Bool := c.isAlphanum || c == '_' || c == '-'

/-- Whether a word ends before the text. -/
def endsWord : List Char → Bool
  | [] => true
  | c :: _ => isGap c || isBreak c

/-- Whether the text starts with the three characters `c` as a word. -/
def startsTriple (c : Char) : List Char → Bool
  | a :: b :: d :: s => a == c && b == c && d == c && endsWord s
  | _ => false

/-- A place in a text. -/
structure Cursor where
  /-- The rest of the text. -/
  rest : List Char
  /-- The number of characters before the place. -/
  index : Nat := 0
  /-- The number of line breaks before the place. -/
  line : Nat := 0
  /-- The number of characters before the place in its line. -/
  column : Nat := 0
deriving Inhabited

namespace Cursor

/-- Passes a character. -/
def step (c : Cursor) : Cursor :=
  match c.rest with
  | [] => c
  | x :: s =>
    if isBreak x then { rest := s, index := c.index + 1, line := c.line + 1, column := 0 }
    else { c with rest := s, index := c.index + 1, column := c.column + 1 }

@[simp] theorem step_rest (c : Cursor) : c.step.rest = c.rest.tail := by
  unfold step
  split
  · simp_all
  · split <;> simp_all

/-- Passes `n` characters. -/
def steps : Nat → Cursor → Cursor
  | 0, c => c
  | n + 1, c => steps n c.step

/-- Passes the characters that satisfy `p`. -/
def skipWhile (p : Char → Bool) (c : Cursor) : Cursor := c.steps (c.rest.takeWhile p).length

/-- Passes the characters that satisfy `p` and returns them. -/
def takeWhile (p : Char → Bool) (c : Cursor) : List Char × Cursor :=
  let found := c.rest.takeWhile p
  (found, c.steps found.length)

/-- The next character. -/
def peek (c : Cursor) : Option Char := c.rest.head?

/-- Whether the next character is `x`. -/
def sees (c : Cursor) (x : Char) : Bool := c.peek == some x

/-- Whether a mark between documents stands here. -/
def atDocumentMark (c : Cursor) : Bool :=
  c.column == 0 && (startsTriple '-' c.rest || startsTriple '.' c.rest)

/-- Passes a comment. -/
def skipComment (c : Cursor) : Cursor :=
  if c.sees '#' then c.skipWhile (!isBreak ·) else c

/-- Passes the rest of a line that holds only a comment. -/
def endLine? (c : Cursor) : Option Cursor :=
  let c := (c.skipWhile isGap).skipComment
  match c.peek with
  | none => some c
  | some x => if isBreak x then some c.step else none

end Cursor

end StaticSite.Yaml

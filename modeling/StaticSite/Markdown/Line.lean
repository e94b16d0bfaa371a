/-!
# Lines and indentation

The source of a document is cut into lines, each with the place where it starts. A *cursor* stands
within a line. It moves over indentation column by column, where a tab reaches to the next multiple
of four columns; the columns of a tab that were not passed yet are kept in the cursor.
-/

namespace StaticSite.Markdown

/-- A line of the source. -/
structure Line where
  /-- The place of the first character. -/
  start : Nat
  /-- The text without the characters that end the line. -/
  text : List Char
  /-- The characters that end the line; none at the end of the source. -/
  ending : List Char
deriving Repr, Inhabited

/-- The place behind the line. -/
def Line.stop (l : Line) : Nat := l.start + l.text.length + l.ending.length

/-- Cuts a text into lines. The text starts at the place `start`, behind the characters `before`,
which belong to the first line and are given from the last to the first. -/
def linesFrom (start : Nat) (before : List Char) : List Char → List Line
  | [] => if before.isEmpty then [] else [⟨start, before.reverse, []⟩]
  | '\r' :: '\n' :: s =>
    ⟨start, before.reverse, ['\r', '\n']⟩ :: linesFrom (start + before.length + 2) [] s
  | '\r' :: s => ⟨start, before.reverse, ['\r']⟩ :: linesFrom (start + before.length + 1) [] s
  | '\n' :: s => ⟨start, before.reverse, ['\n']⟩ :: linesFrom (start + before.length + 1) [] s
  | c :: s => linesFrom start (c :: before) s

/-- The lines of a text. -/
def linesOf (s : List Char) : List Line := linesFrom 0 [] s

/-- White space within a line. -/
def isLineSpace (c : Char) : Bool := c == ' ' || c == '\t' || c == '\x0b' || c == '\x0c'

/-- White space of ASCII. -/
def isWhite (c : Char) : Bool := isLineSpace c || c == '\n' || c == '\r'

/-- Whether the rest of a line is blank. -/
def isBlankLine (s : List Char) : Bool := s.all isLineSpace

/-- A place within a line. -/
structure Cursor where
  /-- The place in the source. -/
  pos : Nat
  /-- The rest of the line. -/
  rest : List Char
  /-- The number of columns since a multiple of four. -/
  column : Nat := 0
  /-- The columns of a tab before the place that were not passed. -/
  pending : Nat := 0
deriving Repr

namespace Cursor

/-- The start of a line. -/
def ofLine (l : Line) : Cursor := { pos := l.start, rest := l.text }

/-- Whether the line ends here. -/
def atEnd (c : Cursor) : Bool := c.rest.isEmpty

/-- Whether the rest of the line is blank. -/
def isBlank (c : Cursor) : Bool := isBlankLine c.rest

/-- Passes at most `n` columns of indentation; the number of columns that were not found comes
first. -/
def passColumns (pos column : Nat) : Nat → List Char → Nat × Cursor
  | 0, s => (0, { pos, rest := s, column })
  | n + 1, ' ' :: s => passColumns (pos + 1) (column + 1) n s
  | n + 1, '\t' :: s =>
    let width := 4 - column % 4
    if width ≤ n + 1 then passColumns (pos + 1) 0 (n + 1 - width) s
    else (0, { pos := pos + 1, rest := s, column := 0, pending := width - (n + 1) })
  | n + 1, s => (n + 1, { pos, rest := s, column })

/-- Passes at most `n` columns of indentation; the number of columns that were not found comes
first. -/
def skipColumns (c : Cursor) (n : Nat) : Nat × Cursor :=
  if n < c.pending then (0, { c with pending := c.pending - n })
  else passColumns c.pos c.column (n - c.pending) c.rest

/-- Passes at most `n` columns; the number of columns passed comes first. -/
def skipUpTo (c : Cursor) (n : Nat) : Nat × Cursor :=
  let p := c.skipColumns n
  (n - p.1, p.2)

/-- Passes exactly `n` columns. -/
def skipExactly? (c : Cursor) (n : Nat) : Option Cursor :=
  let p := c.skipColumns n
  if p.1 = 0 then some p.2 else none

/-- Passes `n` columns, or what there is of a blank line. -/
def skipIndent? (c : Cursor) (n : Nat) : Option Cursor :=
  let p := c.skipColumns n
  if p.1 = 0 || p.2.atEnd then some p.2 else none

/-- Passes `n` characters that are no tabs. -/
def advance (c : Cursor) (n : Nat) : Cursor :=
  { pos := c.pos + n, rest := c.rest.drop n, column := c.column + n }

/-- Passes all spaces and tabs. -/
def skipSpaces (c : Cursor) : Cursor :=
  let spaces := c.rest.takeWhile fun d => d == ' ' || d == '\t'
  { c.advance spaces.length with pending := 0 }

/-- Passes a `>` and one column behind it. -/
def quoteMarker? (c : Cursor) : Option Cursor :=
  match c.rest with
  | '>' :: _ => some ((c.advance 1).skipColumns 1).2
  | _ => none

end Cursor

end StaticSite.Markdown

import StaticSite.Markdown.Event
import StaticSite.Markdown.Line
import StaticSite.Markdown.RawTag

/-!
# What a line can be

Each function looks at the rest of a line behind its indentation and tells whether it has the form
of a thematic break, a heading, a code fence, the start of an HTML block, a list item or the row of
a table that gives the alignments.
-/

namespace StaticSite.Markdown

/-- The number of times that the text starts with a character. -/
def countStart (c : Char) (s : List Char) : Nat := (s.takeWhile (· == c)).length

/-- A thematic break: three or more of `*`, `-` or `_`, with nothing but blanks between them. -/
def isThematicBreak : List Char → Bool
  | [] => false
  | c :: s =>
    (c == '*' || c == '-' || c == '_') &&
      s.all (fun d => d == c || d == ' ' || d == '\t') && 2 ≤ s.countP (· == c)

/-- The level of a heading that starts with `#`. -/
def headingLevel? (s : List Char) : Option Nat :=
  let level := countStart '#' s
  if 1 ≤ level ∧ level ≤ 6 ∧ ((s.drop level).head?.map isWhite).getD true then some level else none

/-- The level of the heading that a line of `=` or `-` makes of the paragraph before it. -/
def underlineLevel? : List Char → Option Nat
  | '=' :: s => if isBlankLine (s.dropWhile (· == '=')) then some 1 else none
  | '-' :: s => if isBlankLine (s.dropWhile (· == '-')) then some 2 else none
  | _ => none

/-- A line that starts a code block. -/
structure Fence where
  /-- The character of the fence. -/
  char : Char
  /-- How often it is repeated. -/
  count : Nat
deriving Repr

/-- The fence that a line starts with. A line with back quotes behind a fence of them starts no code
block. -/
def fence? (s : List Char) : Option Fence :=
  match s with
  | [] => none
  | c :: _ =>
    let count := countStart c s
    if (c == '`' || c == '~') && 3 ≤ count && !(c == '`' && (s.drop count).contains '`') then
      some ⟨c, count⟩
    else none

/-- The number of characters of a line that closes a code block. -/
def Fence.closes? (f : Fence) (s : List Char) : Option Nat :=
  let count := countStart f.char s
  if f.count ≤ count ∧ (s.drop count).all (· == ' ') then some s.length else none

/-- The marker of a list item: its last character, and its number, zero for a bullet. -/
structure Marker where
  /-- A bullet, or what stands behind the number. -/
  char : Char
  /-- The number. -/
  number : Nat
  /-- The number of characters. -/
  length : Nat
deriving Repr

/-- Whether the character is a bullet. -/
def isBullet (c : Char) : Bool := c == '-' || c == '+' || c == '*'

/-- The marker that a line starts with. What follows the marker is not looked at. -/
def marker? (s : List Char) : Option Marker :=
  match s with
  | [] => none
  | c :: _ =>
    if isBullet c then some ⟨c, 0, 1⟩
    else
      let digits := (s.take 9).takeWhile Char.isDigit
      match s.drop digits.length with
      | d :: _ =>
        if digits ≠ [] ∧ (d = '.' ∨ d = ')') then
          some ⟨d, digits.foldl (fun n c => 10 * n + (c.toNat - '0'.toNat)) 0, digits.length + 1⟩
        else none
      | [] => none

/-- Passes the marker of a list item that is indented by `indent` columns. The indentation of the
content of the item comes with the marker. -/
def Cursor.listMarker? (c : Cursor) (indent : Nat) : Option (Marker × Nat × Cursor) :=
  match marker? c.rest with
  | none => none
  | some m =>
    if isBullet m.char && isThematicBreak c.rest then none
    else
      let behind := c.advance m.length
      let passed := behind.skipColumns 1
      if passed.1 = 0 || passed.2.atEnd then
        let content := indent + m.length + 1
        if passed.2.isBlank then some (m, content, passed.2)
        else
          let more := passed.2.skipUpTo 4
          if more.1 < 4 then some (m, content + more.1, more.2) else some (m, content, passed.2)
      else none

/-- Passes the box of a task, behind which white space has to follow. -/
def Cursor.taskMarker? (c : Cursor) : Option (Bool × Cursor) :=
  let c := (c.skipUpTo 3).2
  match c.rest with
  | '[' :: d :: ']' :: e :: _ =>
    if isLineSpace e then
      if isLineSpace d then some (false, c.advance 3)
      else if d = 'x' ∨ d = 'X' then some (true, c.advance 3)
      else none
    else none
  | _ => none

/-- Whether a line starts a list item that can interrupt a paragraph: the item is not empty, and an
ordered list starts with one. Where the paragraph is not in all open blocks, or is a table, every
item interrupts it. -/
def startsItem (s : List Char) (always : Bool) : Bool :=
  match marker? s with
  | none => false
  | some m =>
    let rest := s.drop m.length
    (rest.head?.map fun c => c == ' ' || c == '\t').getD true &&
      (always || ((isBullet m.char || m.number == 1) && !isBlankLine rest))

/-- The names of elements whose tags start an HTML block that a blank line ends. -/
def blockTagNames : List String :=
  ["address", "article", "aside", "base", "basefont", "blockquote", "body", "caption", "center",
   "col", "colgroup", "dd", "details", "dialog", "dir", "div", "dl", "dt", "fieldset", "figcaption",
   "figure", "footer", "form", "frame", "frameset", "h1", "h2", "h3", "h4", "h5", "h6", "head",
   "header", "hr", "html", "iframe", "legend", "li", "link", "main", "menu", "menuitem", "nav",
   "noframes", "ol", "optgroup", "option", "p", "param", "search", "section", "summary", "table",
   "tbody", "td", "tfoot", "th", "thead", "title", "tr", "track", "ul"]

/-- The names of elements whose start tags start an HTML block that the end tag ends. -/
def verbatimTagNames : List String := ["pre", "style", "script", "textarea"]

/-- What ends the HTML block that starts with a `<` before the text, if that is a text of its own.
-/
def htmlBlockEnd? (s : List Char) : Option (List Char) :=
  let name := s.takeWhile Char.isAlpha
  let next := (s.drop name.length).head?
  if (next.map fun c => isWhite c || c == '>').getD true &&
      verbatimTagNames.contains (String.ofList (name.map Char.toLower)) then
    some ("</".toList ++ name.map Char.toLower ++ ['>'])
  else if "!--".toList.isPrefixOf s then some "-->".toList
  else if "?".toList.isPrefixOf s then some "?>".toList
  else if "![CDATA[".toList.isPrefixOf s then some "]]>".toList
  else match s with
    | '!' :: c :: _ => if c.isAlpha then some ['>'] else none
    | _ => none

/-- Whether a `<` before the text starts an HTML block by the name of its tag. -/
def startsBlockTag (s : List Char) : Bool :=
  let s := if s.head? = some '/' then s.tail else s
  let name := s.takeWhile Char.isAlphanum
  let rest := s.drop name.length
  blockTagNames.contains (String.ofList (name.map Char.toLower)) &&
    match rest with
    | [] => true
    | '/' :: '>' :: _ => true
    | c :: _ => c == ' ' || c == '\t' || c == '>'

/-- Whether a line holds a single tag and nothing else, where the `<` stands before the text. -/
def isLoneTag (s : List Char) : Bool :=
  match scanTag? s with
  | some rest => isBlankLine rest
  | none => false

/-- How an HTML block ends. -/
inductive HtmlEnd where
  /-- With the line that holds a text. -/
  | text (s : List Char)
  /-- Before a blank line. -/
  | blank
deriving Repr

/-- How the HTML block ends that a line starts. -/
def htmlBlock? : List Char → Option HtmlEnd
  | '<' :: s =>
    match htmlBlockEnd? s with
    | some t => some (.text t)
    | none => if startsBlockTag s || isLoneTag s then some .blank else none
  | _ => none

/-- Whether a line starts an HTML block that can interrupt a paragraph. -/
def startsHtml : List Char → Bool
  | '<' :: s => (htmlBlockEnd? s).isSome || startsBlockTag s
  | _ => false

/-- The state of reading a row of alignments. -/
structure AlignmentRow where
  /-- The columns that were read, the last one first. -/
  columns : List Alignment := []
  /-- The alignment of the column that is read. -/
  current : Alignment := .unset
  /-- Whether nothing of the column was read. -/
  fresh : Bool := true
  /-- Whether the column has a hyphen. -/
  hyphen : Bool := false
  /-- Whether the row has a `|`. -/
  pipe : Bool := false
  /-- Whether the row has a hyphen. -/
  anyHyphen : Bool := false

/-- The alignment of a column behind one more colon. -/
def Alignment.colon (fresh : Bool) : Alignment → Alignment
  | .unset => if fresh then .left else .right
  | .left => if fresh then .left else .center
  | a => a

/-- Reads a character of a row of alignments. -/
def AlignmentRow.step (r : AlignmentRow) (c : Char) : Option AlignmentRow :=
  if c = ' ' then some r
  else if c = ':' then some { r with current := r.current.colon r.fresh, fresh := false }
  else if c = '-' then some { r with fresh := false, hyphen := true, anyHyphen := true }
  else if c = '|' then
    if r.hyphen then
      some { r with
        columns := r.current :: r.columns, current := .unset, fresh := true, hyphen := false
        pipe := true }
    else none
  else none

/-- The alignments that a row of hyphens, colons and `|` gives to the columns of a table. -/
def alignments? (s : List Char) : Option (List Alignment) :=
  let indent := s.takeWhile (· == ' ')
  let body := s.drop indent.length
  if 3 < indent.length ∨ body.isEmpty then none
  else
    let start : AlignmentRow := { pipe := body.head? == some '|' }
    let body := if body.head? = some '|' then body.tail else body
    match body.foldlM AlignmentRow.step start with
    | none => none
    | some r =>
      if r.pipe && r.anyHyphen then
        some (if r.fresh then r.columns.reverse else (r.current :: r.columns).reverse)
      else none

/-- The number of `|` that no backslash stands before, and the text behind the last one. -/
def countPipes (before : Char) : List Char → Nat × Option (List Char)
  | [] => (0, none)
  | c :: s =>
    let p := countPipes c s
    if c = '|' ∧ before ≠ '\\' then (p.1 + 1, some (p.2.getD s)) else p

/-- The number of columns of a row, which has at least one `|`. -/
def countColumns (s : List Char) : Nat :=
  let p := countPipes ' ' s
  let leading := if (s.dropWhile isLineSpace).head? = some '|' then 1 else 0
  let trailing := if isBlankLine (p.2.getD []) then 0 else 1
  p.1 - leading + trailing

end StaticSite.Markdown

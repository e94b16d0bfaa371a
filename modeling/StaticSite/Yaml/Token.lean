import StaticSite.Yaml.Scalar

/-!
# Tokens

The tokens of a YAML text. Indentation is turned into tokens that open and close blocks, so that
what follows needs no columns.

A key of a block needs no mark of its own: only the colon behind it tells that a key was read. Hence
a token that could start a key is remembered until the colon comes, and the tokens that open the
mapping and the key are put before it then. Such a key ends in the line where it starts and has at
most 1024 characters. Where the indentation asks for a key, it is an error if no colon comes.
-/

namespace StaticSite.Yaml

open StaticSite.Text

/-- A token. -/
inductive Token where
  /-- The version that the text is written for. -/
  | version (major minor : Nat)
  /-- A handle that stands for the beginning of tags. -/
  | tagHandle (handle beginning : String)
  /-- The mark before a document. -/
  | documentStart
  /-- The mark behind a document. -/
  | documentEnd
  /-- The indentation of a sequence starts. -/
  | blockSequenceStart
  /-- The indentation of a mapping starts. -/
  | blockMappingStart
  /-- An indentation ends. -/
  | blockEnd
  /-- An opening bracket. -/
  | flowSequenceStart
  /-- A closing bracket. -/
  | flowSequenceEnd
  /-- An opening brace. -/
  | flowMappingStart
  /-- A closing brace. -/
  | flowMappingEnd
  /-- A dash before an item. -/
  | blockEntry
  /-- A comma. -/
  | flowEntry
  /-- The place before a key. -/
  | key
  /-- The colon before a value. -/
  | value
  /-- A reference to a node. -/
  | alias (name : String)
  /-- A name for the node that follows. -/
  | anchor (name : String)
  /-- A tag, given as a handle and the rest. -/
  | tag (handle rest : String)
  /-- A scalar. -/
  | scalar (text : String) (plain : Bool)
deriving DecidableEq, Repr, Inhabited

/-! ## Anchors, tags and directives -/

/-- The characters other than white space that may follow a name. -/
def nameStops : List Char := ['?', ':', ',', ']', '\x7d', '%', '@', '\x60']

/-- Reads the name behind the mark of an anchor or a reference. -/
def anchorName? (c : Cursor) : Option (String × Cursor) :=
  let (name, c) := c.step.takeWhile isNameChar
  if name.isEmpty || !(endsWord c.rest || c.peek.any nameStops.contains) then none
  else some (String.ofList name, c)

/-- The characters of a tag; those of flow collections only within angle brackets and directives. -/
def isTagChar (full : Bool) (c : Char) : Bool :=
  isNameChar c || ";/?:@&=+$.%!~*'()".toList.contains c || (full && ",[]".toList.contains c)

/-- The number of bytes of a character whose UTF-8 form starts with the byte `b`. -/
def utf8Length? (b : Nat) : Option Nat :=
  if b < 0x80 then some 1
  else if b / 0x20 = 6 then some 2
  else if b / 0x10 = 14 then some 3
  else if b / 8 = 30 then some 4
  else none

/-- Whether `n` bytes of the inner part of a character are written at the front of the text. -/
def innerBytes : Nat → List Char → Bool
  | 0, _ => true
  | n + 1, '%' :: a :: b :: s =>
    (hexNumber? [a, b]).any (fun x => x / 0x40 == 2) && innerBytes n s
  | _ + 1, _ => false

/-- Whether each percent sign starts the bytes of a character. -/
def hasValidEscapes : List Char → Bool
  | [] => true
  | '%' :: a :: b :: s =>
    match hexNumber? [a, b] >>= utf8Length? with
    | some n => innerBytes (n - 1) s && hasValidEscapes (s.drop (3 * (n - 1)))
    | none => false
  | '%' :: _ => false
  | _ :: s => hasValidEscapes s
termination_by s => s.length

/-- Reads the characters of a tag. -/
def tagText? (full : Bool) (c : Cursor) : Option (List Char × Cursor) :=
  let (text, c) := c.takeWhile (isTagChar full)
  if hasValidEscapes text then some (text, c) else none

/-- Reads a handle: an exclamation mark, or a name between two. The result says whether the second
mark was found. -/
def tagHandle? (c : Cursor) : Option (List Char × Bool × Cursor) :=
  if c.sees '!' then
    let (name, c) := c.step.takeWhile isNameChar
    if c.sees '!' then some ('!' :: name ++ ['!'], true, c.step) else some ('!' :: name, false, c)
  else none

/-- The text with percent escapes read. -/
def tagString (s : List Char) : String := (percentDecode? s).getD (String.ofList s)

/-- Reads a tag. Between brackets and braces a comma may end it. -/
def tag? (inFlow : Bool) (c : Cursor) : Option (Token × Cursor) := do
  let (token, c) ←
    if c.step.sees '<' then do
      let (text, c) ← tagText? true (c.steps 2)
      if text.isEmpty || !c.sees '>' then none else some (Token.tag "" (tagString text), c.step)
    else do
      let (handle, closed, c) ← tagHandle? c
      let (text, c) ← tagText? false c
      if closed then
        if text.isEmpty then none else some (.tag (String.ofList handle) (tagString text), c)
      else
        let rest := tagString (handle.drop 1 ++ text)
        some (if rest.isEmpty then .tag "" "!" else .tag "!" rest, c)
  if endsWord c.rest || (inFlow && c.sees ',') then some (token, c) else none

/-- Reads a number of a version, which has at most nine digits. -/
def versionNumber? (c : Cursor) : Option (Nat × Cursor) :=
  let (digits, c) := c.takeWhile Char.isDigit
  if digits.isEmpty || 9 < digits.length then none
  else some (digits.foldl (fun n d => 10 * n + (d.toNat - '0'.toNat)) 0, c)

/-- Reads a directive. -/
def directive? (c : Cursor) : Option (Token × Cursor) := do
  let (name, c) := c.step.takeWhile isNameChar
  if !endsWord c.rest then none
  let c := c.skipWhile isGap
  let (token, c) ←
    if name = "YAML".toList then do
      let (major, c) ← versionNumber? c
      if !c.sees '.' then none
      let (minor, c) ← versionNumber? c.step
      some (Token.version major minor, c)
    else if name = "TAG".toList then do
      let (handle, closed, c) ← tagHandle? c
      if !(closed || handle.length == 1) || !c.peek.any isGap then none
      let (text, c) ← tagText? true (c.skipWhile isGap)
      if text.isEmpty || !endsWord c.rest then none
      some (.tagHandle (String.ofList handle) (tagString text), c)
    else none
  let c ← c.endLine?
  some (token, c)

/-! ## Reading -/

/-- Passes white space and comments before a token, and says whether a key may start behind them: in
a block it may behind a line break. Tabs may not stand where a key may start, unless the place lies
between brackets or braces. -/
def blankBefore (inFlow keyAllowed : Bool) (c : Cursor) : Bool × Cursor :=
  let d := if c.index == 0 && c.sees '\ufeff' then c.step else c
  let d := d.skipWhile fun x => x == ' ' || (x == '\t' && (inFlow || !keyAllowed))
  let d := d.skipComment
  if _h : d.peek.any isBreak ∧ d.step.rest.length < c.rest.length then
    blankBefore inFlow (keyAllowed || !inFlow) d.step
  else (keyAllowed, d)
termination_by c.rest.length
decreasing_by exact _h.2

/-- A place that may turn out to be before a key. -/
structure KeyPlace where
  /-- The number of tokens before the key. -/
  number : Nat
  /-- Whether the indentation asks for a key here. -/
  required : Bool
  /-- Where the key starts. -/
  start : Cursor

/-- What was read of a text. -/
structure Reading where
  /-- The place in the text. -/
  cursor : Cursor
  /-- The tokens, the last one first. -/
  tokens : List Token := []
  /-- The columns of the open blocks, each increased by one, the innermost first. -/
  blocks : List Nat := []
  /-- The place of a key in the innermost collection. -/
  place : Option KeyPlace := none
  /-- The places of keys around each open bracket and brace. -/
  outer : List (Option KeyPlace) := []
  /-- Whether a key may start here. -/
  keyAllowed : Bool := true

namespace Reading

/-- Whether the place lies between brackets or braces. -/
def inFlow (r : Reading) : Bool := !r.outer.isEmpty

/-- The least column of what lies inside the innermost block. -/
def inner (r : Reading) : Nat := r.blocks.head?.getD 0

/-- Adds a token. -/
def emit (r : Reading) (t : Token) : Reading := { r with tokens := t :: r.tokens }

/-- Moves to another place. -/
def goTo (r : Reading) (c : Cursor) : Reading := { r with cursor := c }

/-- Puts a token behind the first `number` tokens. -/
def emitAt (r : Reading) (number : Nat) (t : Token) : Reading :=
  let later := r.tokens.length - number
  { r with tokens := r.tokens.take later ++ t :: r.tokens.drop later }

/-- Allows or forbids that a key starts here. -/
def allowKey (r : Reading) (allowed : Bool) : Reading := { r with keyAllowed := allowed }

/-- Gives up the place of a key. -/
def dropPlace? (r : Reading) : Option Reading :=
  if r.place.any (·.required) then none else some { r with place := none }

/-- Remembers that a key may start here. -/
def savePlace? (r : Reading) : Option Reading :=
  if r.keyAllowed then do
    let r ← r.dropPlace?
    let required := !r.inFlow && r.inner == r.cursor.column + 1
    some { r with place := some { number := r.tokens.length, required, start := r.cursor } }
  else some r

/-- A place that is in another line, or too far away, is the place of no key. -/
def keepPlace? (now : Cursor) : Option KeyPlace → Option (Option KeyPlace)
  | none => some none
  | some p =>
    if p.start.line < now.line || p.start.index + 1024 < now.index then
      if p.required then none else some none
    else some (some p)

/-- Gives up the places that are too far away. -/
def dropStale? (r : Reading) : Option Reading := do
  let place ← keepPlace? r.cursor r.place
  let outer ← r.outer.mapM (keepPlace? r.cursor)
  some { r with place, outer }

/-- Opens a block with the token `t`, if its column lies inside the innermost block. -/
def openBlock (r : Reading) (column number : Nat) (t : Token) : Reading :=
  if !r.inFlow && r.inner ≤ column then
    { r.emitAt number t with blocks := (column + 1) :: r.blocks }
  else r

/-- Opens a block here. -/
def openHere (r : Reading) (t : Token) : Reading := r.openBlock r.cursor.column r.tokens.length t

/-- Closes the blocks that lie deeper than the column `inner - 1`. -/
def closeBlocks (inner : Nat) (r : Reading) : Reading :=
  if r.inFlow then r
  else
    let closed := r.blocks.takeWhile (inner < ·)
    { r with
      tokens := closed.map (fun _ => Token.blockEnd) ++ r.tokens
      blocks := r.blocks.dropWhile (inner < ·) }

/-- Passes white space and comments before a token. -/
def skipBlank (r : Reading) : Reading :=
  let (keyAllowed, cursor) := blankBefore r.inFlow r.keyAllowed r.cursor
  { r with keyAllowed, cursor }

/-- Reads a token of one character. -/
def mark (r : Reading) (t : Token) : Reading := (r.emit t).goTo r.cursor.step

/-- Reads the mark between two documents. -/
def documentMark? (r : Reading) (t : Token) : Option Reading := do
  let r ← (r.closeBlocks 0).dropPlace?
  some (((r.emit t).goTo (r.cursor.steps 3)).allowKey false)

/-- Reads an opening bracket or brace. -/
def flowStart? (r : Reading) (t : Token) : Option Reading := do
  let r ← r.savePlace?
  some ({ r with place := none, outer := r.place :: r.outer }.mark t |>.allowKey true)

/-- Reads a closing bracket or brace. -/
def flowEnd? (r : Reading) (t : Token) : Option Reading := do
  let r ← r.dropPlace?
  let r :=
    match r.outer with
    | [] => r
    | place :: outer => { r with place, outer }
  some ((r.mark t).allowKey false)

/-- Reads a dash before an item. -/
def blockEntry? (r : Reading) : Option Reading := do
  if !r.inFlow && !r.keyAllowed then none
  let r ← (r.openHere .blockSequenceStart).dropPlace?
  some ((r.mark .blockEntry).allowKey true)

/-- Reads the mark before a key. -/
def key? (r : Reading) : Option Reading := do
  if !r.inFlow && !r.keyAllowed then none
  let r ← (r.openHere .blockMappingStart).dropPlace?
  some ((r.mark .key).allowKey !r.inFlow)

/-- Reads the colon before a value. -/
def value? (r : Reading) : Option Reading :=
  match r.place with
  | some p =>
    let r := (r.emitAt p.number .key).openBlock p.start.column p.number .blockMappingStart
    some (({ r with place := none }.mark .value).allowKey false)
  | none =>
    if !r.inFlow && !r.keyAllowed then none
    else some (((r.openHere .blockMappingStart).mark .value).allowKey !r.inFlow)

/-- Reads what may start a key. -/
def content? (r : Reading) (read : Cursor → Option (Token × Cursor)) : Option Reading := do
  let r ← r.savePlace?
  let (t, c) ← read r.cursor
  some (((r.emit t).goTo c).allowKey false)

/-- Reads a block scalar. -/
def blockScalar? (r : Reading) (literal : Bool) : Option Reading := do
  let r ← r.dropPlace?
  let (text, c) ← block? literal r.inner r.cursor.step
  some (((r.emit (.scalar (String.ofList text) false)).goTo c).allowKey true)

/-- Reads a plain scalar. -/
def plainScalar? (r : Reading) : Option Reading := do
  let r ← r.savePlace?
  let (text, broken, c) ← plain? r.inFlow r.inner r.cursor
  some (((r.emit (.scalar (String.ofList text) true)).goTo c).allowKey broken)

/-- Reads a scalar in quotes. -/
def quotedScalar (c : Cursor) : Option (Token × Cursor) := do
  let (text, c) ← quoted? c
  some (.scalar (String.ofList text) false, c)

/-- Reads the token at the cursor, where the text does not end. -/
def token? (r : Reading) (x : Char) (s : List Char) : Option Reading :=
  let atStart := r.cursor.column == 0
  if atStart && x == '%' then do
    let r ← (r.closeBlocks 0).dropPlace?
    let (t, c) ← directive? r.cursor
    some (((r.emit t).goTo c).allowKey false)
  else if atStart && startsTriple '-' (x :: s) then r.documentMark? .documentStart
  else if atStart && startsTriple '.' (x :: s) then r.documentMark? .documentEnd
  else if x == '[' then r.flowStart? .flowSequenceStart
  else if x == '\x7b' then r.flowStart? .flowMappingStart
  else if x == ']' then r.flowEnd? .flowSequenceEnd
  else if x == '\x7d' then r.flowEnd? .flowMappingEnd
  else if x == ',' then do
    let r ← r.dropPlace?
    some ((r.mark .flowEntry).allowKey true)
  else if x == '-' && endsWord s then r.blockEntry?
  else if x == '?' && (r.inFlow || endsWord s) then r.key?
  else if x == ':' && (r.inFlow || endsWord s) then r.value?
  else if x == '*' then
    r.content? fun c => (fun p => (Token.alias p.1, p.2)) <$> anchorName? c
  else if x == '&' then
    r.content? fun c => (fun p => (Token.anchor p.1, p.2)) <$> anchorName? c
  else if x == '!' then r.content? (tag? r.inFlow)
  else if x == '|' && !r.inFlow then r.blockScalar? true
  else if x == '>' && !r.inFlow then r.blockScalar? false
  else if x == '\'' || x == '"' then r.content? quotedScalar
  else if isGap x || isBreak x || ['#', '|', '>', '%', '@', '\x60'].contains x then none
  else r.plainScalar?

/-- Reads the remaining tokens. -/
def finish? (r : Reading) : Option (List Token) := do
  let ready ← r.skipBlank.dropStale?
  let ready := ready.closeBlocks (ready.cursor.column + 1)
  match ready.cursor.rest with
  | [] => do
    let ready ← (ready.closeBlocks 0).dropPlace?
    some ready.tokens.reverse
  | x :: s => do
    let next ← ready.token? x s
    if next.cursor.rest.length < r.cursor.rest.length then next.finish? else none
termination_by r.cursor.rest.length

end Reading

/-- The tokens of a text, if each is well formed. -/
def tokens? (s : List Char) : Option (List Token) :=
  if s.all isAllowed then { cursor := { rest := normalizeBreaks s } : Reading }.finish? else none

end StaticSite.Yaml

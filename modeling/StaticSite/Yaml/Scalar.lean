import StaticSite.Yaml.Cursor
import StaticSite.Text.Percent

/-!
# Scalars

A scalar is a text without structure. It is written in one of five styles: plain, in single or
double quotes, or as a block of lines whose breaks are kept or folded. Each function reads a scalar
at the cursor and returns its text with the place behind it; there is no result if the scalar is not
well formed.

Indentation is given as `inner`, the least column of what lies inside the current block; it is zero
outside all blocks.
-/

namespace StaticSite.Yaml

open StaticSite.Text

/-- The text that stands for a run of breaks within a flowing text: one line feed is a space, and
the first of several is dropped. -/
def foldBreaks : List Char → List Char
  | ['\n'] => [' ']
  | '\n' :: bs => bs
  | bs => bs

/-- What stands between two words. -/
structure Between where
  /-- The spaces and tabs before the first break. -/
  gap : List Char := []
  /-- The breaks. -/
  breaks : List Char := []

/-- The text between the words. -/
def Between.text (b : Between) : List Char :=
  if b.breaks.isEmpty then b.gap else foldBreaks b.breaks

/-- Reads what stands between two words. Behind a break no tab may stand left of the column
`inner`. -/
def between? (inner : Nat) (b : Between) (c : Cursor) : Option (Between × Cursor) :=
  match _h : c.rest with
  | [] => some (b, c)
  | x :: _ =>
    if isGap x then
      if b.breaks.isEmpty then between? inner { b with gap := b.gap ++ [x] } c.step
      else if x == '\t' && c.column < inner then none
      else between? inner b c.step
    else if isBreak x then between? inner { b with breaks := b.breaks ++ [x] } c.step
    else some (b, c)
termination_by c.rest.length
decreasing_by all_goals simp_all

/-! ## Plain scalars -/

/-- The characters that structure a flow collection. -/
def isFlowMark (c : Char) : Bool := c == ',' || c == '[' || c == ']' || c == '{' || c == '}'

/-- The number of characters of the word at the front of a plain scalar. Within a flow collection a
colon before a mark is not well formed. -/
def plainWord? (inFlow : Bool) : List Char → Option Nat
  | [] => some 0
  | c :: s =>
    if isGap c || isBreak c then some 0
    else if inFlow && c == ':' && s.head?.any (fun x => isFlowMark x || x == '?') then none
    else if (c == ':' && endsWord s) || (inFlow && isFlowMark c) then some 0
    else (· + 1) <$> plainWord? inFlow s

/-- Reads the rest of a plain scalar behind `text`. The result says whether the last thing read was
a line break. -/
def plainRest? (inFlow : Bool) (inner : Nat) (text : List Char) (b : Between) (c : Cursor) :
    Option (List Char × Bool × Cursor) :=
  let stop := some (text, !b.breaks.isEmpty, c)
  if c.atDocumentMark || c.sees '#' then stop
  else
    match plainWord? inFlow c.rest with
    | none => none
    | some 0 => stop
    | some (n + 1) =>
      let text := text ++ b.text ++ c.rest.take (n + 1)
      match between? inner {} (c.steps (n + 1)) with
      | none => none
      | some (b, d) =>
        if b.gap.isEmpty && b.breaks.isEmpty then some (text, false, d)
        else if !inFlow && d.column < inner then some (text, !b.breaks.isEmpty, d)
        else if d.rest.length < c.rest.length then plainRest? inFlow inner text b d
        else none
termination_by c.rest.length

/-- Reads a plain scalar. The result says whether it ends at a line break. -/
def plain? (inFlow : Bool) (inner : Nat) (c : Cursor) : Option (List Char × Bool × Cursor) :=
  plainRest? inFlow inner [] {} c

/-! ## Quoted scalars -/

/-- The value of hexadecimal digits. -/
def hexNumber? (s : List Char) : Option Nat :=
  s.foldl (fun n c => return 16 * (← n) + (← hexValue? c)) (some 0)

/-- The character that a backslash before `c` stands for. -/
def escaped? : Char → Option Char
  | '0' => some '\x00'
  | 'a' => some '\x07'
  | 'b' => some '\x08'
  | 't' => some '\t'
  | '\t' => some '\t'
  | 'n' => some '\n'
  | 'v' => some '\x0b'
  | 'f' => some '\x0c'
  | 'r' => some '\r'
  | 'e' => some '\x1b'
  | ' ' => some ' '
  | '"' => some '"'
  | '/' => some '/'
  | '\\' => some '\\'
  | 'N' => some '\u0085'
  | '_' => some '\u00a0'
  | 'L' => some '\u2028'
  | 'P' => some '\u2029'
  | _ => none

/-- The number of digits of a character code that is written with `c`. -/
def codeLength? : Char → Option Nat
  | 'x' => some 2
  | 'u' => some 4
  | 'U' => some 8
  | _ => none

/-- Reads an escape behind its backslash: the character and the number of characters read. -/
def escape? : List Char → Option (Char × Nat)
  | [] => none
  | c :: s =>
    match codeLength? c with
    | none => (·, 1) <$> escaped? c
    | some n =>
      if (s.take n).length = n then do
        let code ← hexNumber? (s.take n)
        if code.isValidChar then some (Char.ofNat code, n + 1) else none
      else none

/-- A piece of a quoted scalar. -/
inductive QuotedPiece where
  /-- A character, written with `length` characters. -/
  | char (c : Char) (length : Nat)
  /-- A line break behind a backslash. -/
  | joined
  /-- The end of a word. -/
  | stop

/-- The piece at the front of a text in quotes. -/
def quotedPiece? (quote : Char) : List Char → Option QuotedPiece
  | [] => some .stop
  | c :: s =>
    if isGap c || isBreak c then some .stop
    else if c == quote then
      if quote == '\'' && s.head? == some quote then some (.char quote 2) else some .stop
    else if quote == '"' && c == '\\' then
      if s.head?.any isBreak then some .joined
      else do
        let (x, n) ← escape? s
        some (.char x (n + 1))
    else some (.char c 1)

/-- Reads the word at the front of a text in quotes, and says whether a joined line break follows.
-/
def quotedWord? (quote : Char) (word : List Char) (c : Cursor) :
    Option (List Char × Bool × Cursor) :=
  match quotedPiece? quote c.rest with
  | none => none
  | some .stop => some (word.reverse, false, c)
  | some .joined => some (word.reverse, true, c.steps 2)
  | some (.char x n) =>
    let d := c.steps n
    if d.rest.length < c.rest.length then quotedWord? quote (x :: word) d else none
termination_by c.rest.length

/-- Reads the rest of a quoted scalar behind `text`. -/
def quotedRest? (quote : Char) (text : List Char) (c : Cursor) : Option (List Char × Cursor) :=
  if c.atDocumentMark || c.rest.isEmpty then none
  else
    match quotedWord? quote [] c with
    | none => none
    | some (word, joined, d) =>
      if d.sees quote then some (text ++ word, d.step)
      else
        match between? 0 {} d with
        | none => none
        | some (b, e) =>
          let text := text ++ word ++ if joined then b.breaks else b.text
          if e.rest.length < c.rest.length then quotedRest? quote text e else none
termination_by c.rest.length

/-- Reads a scalar in quotes. -/
def quoted? (c : Cursor) : Option (List Char × Cursor) :=
  match c.peek with
  | none => none
  | some quote => quotedRest? quote [] c.step

/-! ## Block scalars -/

/-- What becomes of the line breaks at the end of a block. -/
inductive Chomp where
  /-- All but one are dropped. -/
  | clip
  /-- All are dropped. -/
  | strip
  /-- All are kept. -/
  | keep
deriving DecidableEq

/-- Reads a mark of what becomes of the last breaks. -/
def chomp? (c : Cursor) : Option (Chomp × Cursor) :=
  if c.sees '+' then some (.keep, c.step)
  else if c.sees '-' then some (.strip, c.step)
  else none

/-- Reads a depth of indentation; there is none if no digit stands here. -/
def depth? (c : Cursor) : Option (Nat × Cursor) :=
  match c.peek with
  | some x => if x.isDigit then some (x.toNat - '0'.toNat, c.step) else none
  | none => none

/-- Reads the marks behind the indicator of a block scalar, in either order. -/
def blockMarks (c : Cursor) : Chomp × Option Nat × Cursor :=
  match chomp? c with
  | some (chomp, c) =>
    match depth? c with
    | some (n, c) => (chomp, some n, c)
    | none => (chomp, none, c)
  | none =>
    match depth? c with
    | some (n, c) =>
      match chomp? c with
      | some (chomp, c) => (chomp, some n, c)
      | none => (.clip, some n, c)
    | none => (.clip, none, c)

/-- The lines before the next line of a block. -/
structure BlockGap where
  /-- The column where the lines of the block start, if it is known. -/
  indent : Option Nat
  /-- The greatest column where a line starts. -/
  widest : Nat := 0
  /-- The breaks. -/
  breaks : List Char := []

/-- Reads empty lines and the indentation of the line behind them. No tab may stand in the
indentation. -/
def blockGap? (g : BlockGap) (c : Cursor) : Option (BlockGap × Cursor) :=
  match _h : c.rest with
  | [] => some ({ g with widest := max g.widest c.column }, c)
  | x :: _ =>
    let indented := g.indent.all (c.column < ·)
    if indented && x == ' ' then blockGap? g c.step
    else if indented && x == '\t' then none
    else
      let g := { g with widest := max g.widest c.column }
      if isBreak x then blockGap? { g with breaks := g.breaks ++ [x] } c.step
      else some (g, c)
termination_by c.rest.length
decreasing_by all_goals simp_all

/-- Reads the lines of a block behind `text`. The break that ended the last line is `ending`, that
line started with a gap if `gapped`, and `breaks` were read since. -/
def blockLines? (literal : Bool) (indent : Nat) (text : List Char) (ending : Option Char)
    (gapped : Bool) (breaks : List Char) (c : Cursor) :
    Option (List Char × Option Char × List Char × Cursor) :=
  if c.column = indent ∧ !c.rest.isEmpty then
    let gap := c.peek.any isGap
    let fold := !literal && ending == some '\n' && !gapped && !gap
    let ending := if fold then if breaks.isEmpty then [' '] else [] else ending.toList
    let text := text ++ ending ++ breaks
    let (line, d) := c.takeWhile (!isBreak ·)
    match blockGap? { indent := some indent } d.step with
    | none => none
    | some (g, e) =>
      if e.rest.length < c.rest.length then
        blockLines? literal indent (text ++ line) d.peek gap g.breaks e
      else none
  else some (text, ending, breaks, c)
termination_by c.rest.length

/-- Reads a block scalar behind its indicator. -/
def block? (literal : Bool) (inner : Nat) (c : Cursor) : Option (List Char × Cursor) := do
  let (chomp, depth, c) := blockMarks c
  if depth == some 0 then none
  else
    let c ← c.endLine?
    let (g, c) ← blockGap? { indent := depth.map (· + (inner - 1)) } c
    let indent := g.indent.getD (max (max g.widest inner) 1)
    let (text, ending, breaks, c) ← blockLines? literal indent [] none false g.breaks c
    let text := if chomp = .strip then text else text ++ ending.toList
    some (if chomp = .keep then text ++ breaks else text, c)

end StaticSite.Yaml

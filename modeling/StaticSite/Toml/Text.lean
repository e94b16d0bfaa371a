import StaticSite.Text.Percent

/-!
# White space and strings of TOML

Strings stand in single or double quotes, and over several lines in three of them. Each function
takes what it reads from the front of a text and returns it with the rest; there is no result if the
text is not well formed.
-/

namespace StaticSite.Toml

open StaticSite.Text

/-! ## White space -/

/-- A space or a tab. -/
def isGap (c : Char) : Bool := c == ' ' || c == '\t'

/-- A character of a comment, and of a string in which none is special. -/
def isTextChar (c : Char) : Bool := c == '\t' || (' ' ≤ c && c != '\x7f')

/-- Passes spaces and tabs. -/
def skipGap (s : List Char) : List Char := s.dropWhile isGap

/-- Passes a line break. -/
def newline? : List Char → Option (List Char)
  | '\n' :: s => some s
  | '\r' :: '\n' :: s => some s
  | _ => none

/-- Passes a comment. -/
def skipComment : List Char → List Char
  | '#' :: s => s.dropWhile isTextChar
  | s => s

/-- Passes the rest of a line that holds nothing but a comment, with the break that ends it. -/
def endLine? (s : List Char) : Option (List Char) :=
  match skipComment (skipGap s) with
  | [] => some []
  | s => newline? s

/-- Passes white space, line breaks and comments. -/
def skipBlank (s : List Char) : List Char :=
  let t := skipComment (skipGap s)
  match newline? t with
  | some u => if u.length < s.length then skipBlank u else u
  | none => t
termination_by s.length

/-- Passes white space and line breaks. -/
def skipBreaks : List Char → List Char
  | ' ' :: s => skipBreaks s
  | '\t' :: s => skipBreaks s
  | '\n' :: s => skipBreaks s
  | '\r' :: '\n' :: s => skipBreaks s
  | s => s

/-! ## Strings -/

/-- The character with a code that is written with `n` hexadecimal digits. -/
def codeChar? (n : Nat) (s : List Char) : Option (Char × List Char) := do
  let digits := s.take n
  if digits.length < n then none
  let code ← digits.foldlM (fun code c => return 16 * code + (← hexValue? c)) 0
  if code.isValidChar then some (Char.ofNat code, s.drop n) else none

/-- Reads an escape behind its backslash. -/
def escape? : List Char → Option (Char × List Char)
  | 'b' :: s => some ('\x08', s)
  | 't' :: s => some ('\t', s)
  | 'n' :: s => some ('\n', s)
  | 'f' :: s => some ('\x0c', s)
  | 'r' :: s => some ('\r', s)
  | '"' :: s => some ('"', s)
  | '\\' :: s => some ('\\', s)
  | 'u' :: s => codeChar? 4 s
  | 'U' :: s => codeChar? 8 s
  | _ => none

/-- Reads a string of one line behind its opening quote; backslashes are special if `escapes`. -/
def lineString? (quote : Char) (escapes : Bool) (before : List Char) (s : List Char) :
    Option (List Char × List Char) :=
  match s with
  | [] => none
  | c :: t =>
    if c = quote then some (before.reverse, t)
    else if escapes && c == '\\' then
      match escape? t with
      | some (x, u) =>
        if u.length < (c :: t).length then lineString? quote escapes (x :: before) u else none
      | none => none
    else if isTextChar c then lineString? quote escapes (c :: before) t
    else none
termination_by s.length
decreasing_by all_goals simp only [List.length_cons] at *; omega

/-- Passes a backslash before a line break, with all white space behind it. -/
def joinedLine? (s : List Char) : Option (List Char) := skipBreaks <$> newline? (skipGap s)

/-- Reads a string of several lines behind its opening quotes. Up to two quotes may stand before the
closing ones. -/
def blockString? (quote : Char) (escapes : Bool) (before : List Char) (s : List Char) :
    Option (List Char × List Char) :=
  match s with
  | [] => none
  | c :: t =>
    let next (more rest : List Char) :=
      if rest.length < (c :: t).length then blockString? quote escapes (more ++ before) rest
      else none
    if c = quote then
      let quotes := (s.takeWhile (· == quote)).length
      if quotes < 3 then next [c] t
      else
        let kept := min (quotes - 3) 2
        some (before.reverse ++ List.replicate kept quote, s.drop (kept + 3))
    else if escapes && c == '\\' then
      match joinedLine? t with
      | some u => next [] u
      | none =>
        match escape? t with
        | some (x, u) => next [x] u
        | none => none
    else
      match newline? s with
      | some u => next ['\n'] u
      | none => if isTextChar c then next [c] t else none
termination_by s.length
decreasing_by all_goals simp only [List.length_cons] at *; omega

/-- Reads a string of one line. -/
def keyString? : List Char → Option (List Char × List Char)
  | '"' :: s => lineString? '"' true [] s
  | '\'' :: s => lineString? '\'' false [] s
  | _ => none

/-- A text without the line break at its front. -/
def dropBreak (s : List Char) : List Char := (newline? s).getD s

/-- Reads a string. -/
def string? : List Char → Option (List Char × List Char)
  | '"' :: '"' :: '"' :: s => blockString? '"' true [] (dropBreak s)
  | '\'' :: '\'' :: '\'' :: s => blockString? '\'' false [] (dropBreak s)
  | s => keyString? s

end StaticSite.Toml

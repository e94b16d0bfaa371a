import StaticSite.Markdown.Line
import StaticSite.Markdown.Reference
import StaticSite.Text.CaseFold
import StaticSite.Text.Punctuation

/-!
# Labels, addresses and titles

A link names its address and title directly, or by a label that a definition gives them to. The
functions here read these parts from a text in which every line ends with a line feed.

Labels are compared by their case folding, with each run of white space as one space.
-/

namespace StaticSite.Markdown

open StaticSite.Text

/-- The state of reading a label. -/
structure LabelText where
  /-- The characters of the label, the last one first. -/
  chars : List Char := []
  /-- Whether the label has a character that is no white space. -/
  solid : Bool := false
  /-- The number of line feeds since the last character that is no white space. -/
  breaks : Nat := 0

/-- Adds a white space to a label: runs of them become one space. -/
def LabelText.space (l : LabelText) (c : Char) : LabelText :=
  { l with
    chars := if l.chars.head? = some ' ' then l.chars else ' ' :: l.chars
    breaks := if c = '\n' then l.breaks + 1 else l.breaks }

/-- Adds characters that are no white space to a label. -/
def LabelText.push (l : LabelText) (cs : List Char) : LabelText :=
  { chars := cs.reverse ++ l.chars, solid := true }

/-- Reads a label up to the `]` that ends it, and gives what follows. The label may have 999
characters, counted by `budget`; line feeds are allowed on request. -/
def readLabelFrom (breaks : Bool) : (budget : Nat) → LabelText → List Char →
    Option (List Char × List Char)
  | 0, _, _ => none
  | _, _, [] => none
  | budget + 1, l, c :: s =>
    if c = '[' then none
    else if c = ']' then if l.solid then some (l.chars.reverse, s) else none
    else if c = '\\' then
      match s with
      | [] => none
      | d :: s => readLabelFrom breaks budget (l.push [c, d]) s
    else if isWhite c then
      let l := l.space c
      if l.breaks ≤ 1 && (breaks || c != '\n') then readLabelFrom breaks budget l s else none
    else readLabelFrom breaks budget (l.push [c]) s

/-- Reads the label behind a `[`. -/
def readLabel? (breaks : Bool) (s : List Char) : Option (List Char × List Char) :=
  readLabelFrom breaks 1000 {} s

/-- What labels are compared by. -/
def labelKey (label : List Char) : List Char := foldCase label

/-- Resolves backslash escapes and character references. -/
def unescape : List Char → List Char
  | [] => []
  | '\\' :: c :: s => if isAsciiPunctuation c then c :: unescape s else '\\' :: unescape (c :: s)
  | '&' :: s =>
    match readReference? s with
    | some (t, rest) => if rest.length < s.length then t ++ unescape rest else '&' :: unescape s
    | none => '&' :: unescape s
  | c :: s => c :: unescape s
termination_by s => s.length

/-- Reads an address between angle brackets, behind the `<`. -/
def readPointed? : List Char → Option (List Char × List Char)
  | [] => none
  | '\\' :: c :: s =>
    if isAsciiPunctuation c then (readPointed? s).map fun p => ('\\' :: c :: p.1, p.2)
    else (readPointed? (c :: s)).map fun p => ('\\' :: p.1, p.2)
  | c :: s =>
    if c = '\n' ∨ c = '<' then none
    else if c = '>' then some ([], s)
    else (readPointed? s).map fun p => (c :: p.1, p.2)

/-- The greatest number of parentheses that can be open in an address. -/
def maxParentheses : Nat := 32

/-- Reads an address without angle brackets, in which parentheses are balanced. -/
def readPlain? (opened : Nat) : List Char → Option (List Char × List Char)
  | [] => if opened = 0 then some ([], []) else none
  | '\\' :: c :: s =>
    if isAsciiPunctuation c then (readPlain? opened s).map fun p => ('\\' :: c :: p.1, p.2)
    else (readPlain? opened (c :: s)).map fun p => ('\\' :: p.1, p.2)
  | c :: s =>
    if c ≤ ' ' ∨ (c = ')' ∧ opened = 0) then if opened = 0 then some ([], c :: s) else none
    else if c = '(' ∧ maxParentheses < opened then none
    else
      let opened := if c = '(' then opened + 1 else if c = ')' then opened - 1 else opened
      (readPlain? opened s).map fun p => (c :: p.1, p.2)

/-- Reads the address of a link. -/
def readAddress? : List Char → Option (List Char × List Char)
  | '<' :: s => readPointed? s
  | s => readPlain? 0 s

/-- Reads a title up to the character that ends it. White space at the start of a line is left
out. -/
def readTitleFrom (opening closing : Char) (lineStart : Bool) :
    List Char → Option (List Char × List Char)
  | [] => none
  | '\\' :: c :: s =>
    if isAsciiPunctuation c then
      (readTitleFrom opening closing false s).map fun p => ('\\' :: c :: p.1, p.2)
    else (readTitleFrom opening closing false (c :: s)).map fun p => ('\\' :: p.1, p.2)
  | c :: s =>
    if lineStart ∧ (c = ' ' ∨ c = '\t') then readTitleFrom opening closing true s
    else if c = closing then some ([], s)
    else if c = opening then none
    else (readTitleFrom opening closing (c == '\n') s).map fun p => (c :: p.1, p.2)

/-- Reads a title with its quotes or parentheses. -/
def readTitle? : List Char → Option (List Char × List Char)
  | '"' :: s => readTitleFrom '"' '"' false s
  | '\'' :: s => readTitleFrom '\'' '\'' false s
  | '(' :: s => readTitleFrom '(' ')' false s
  | _ => none

/-- Passes white space with at most one line feed. -/
def skipSeparator (s : List Char) : List Char :=
  match s.dropWhile isLineSpace with
  | '\n' :: t => t.dropWhile isLineSpace
  | t => t

/-- What a link leads to. -/
structure Target where
  /-- The address. -/
  address : String
  /-- The title, which may be empty. -/
  title : String
deriving Repr

/-- Makes a target of an address and a title as they were written. -/
def Target.ofSource (address title : List Char) : Target :=
  ⟨String.ofList (unescape address), String.ofList (unescape title)⟩

/-- Reads the address and the title of a link between parentheses. -/
def readTarget? : List Char → Option (Target × List Char)
  | '(' :: s =>
    match readAddress? (skipSeparator s) with
    | none => none
    | some (address, rest) =>
      let rest := skipSeparator rest
      let titled := readTitle? rest
      let title := (titled.map (·.1)).getD []
      match (titled.map fun p => skipSeparator p.2).getD rest with
      | ')' :: rest => some (.ofSource address title, rest)
      | _ => none
  | _ => none

/-- A definition gives a label an address and a title. -/
structure Definition where
  /-- The label as it was written. -/
  label : List Char
  /-- What the label stands for. -/
  target : Target
deriving Repr

/-- Passes the rest of a blank line and the line feed that ends it. -/
def endOfLine? (s : List Char) : Option (List Char) :=
  match s.dropWhile isLineSpace with
  | [] => some []
  | '\n' :: rest => some rest
  | _ => none

/-- Whether white space has at most one line feed. -/
def isShortGap (s : List Char) : Bool := (s.takeWhile isWhite).count '\n' ≤ 1

/-- Reads a definition at the start of a text; the definition ends with a line. -/
def readDefinition? : List Char → Option (Definition × List Char)
  | '[' :: s =>
    match readLabel? true s with
    | some (label, ':' :: rest) =>
      if !isShortGap rest then none
      else match readAddress? (rest.dropWhile isWhite) with
        | none => none
        | some (address, behind) =>
          if behind.length = (rest.dropWhile isWhite).length then none
          else
            let plain := (endOfLine? behind).map fun t =>
              ((⟨label, .ofSource address []⟩ : Definition), t)
            let gap := behind.takeWhile isWhite
            if gap.isEmpty || !isShortGap behind then plain
            else match readTitle? (behind.dropWhile isWhite) with
              | none => plain
              | some (title, t) =>
                match endOfLine? t with
                | some t => some (⟨label, .ofSource address title⟩, t)
                | none => plain
    | _ => none
  | _ => none

end StaticSite.Markdown

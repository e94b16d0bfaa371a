import StaticSite.Markdown.Line
import StaticSite.Text.Basic

/-!
# Raw HTML and addresses between angle brackets

Each function reads what follows a `<` and gives the text behind the `>` that ends it, or `none` if
the `<` starts nothing of the kind.
-/

namespace StaticSite.Markdown

open StaticSite.Text

/-- Passes the value of an attribute. -/
def scanValue? : List Char → Option (List Char)
  | [] => none
  | '"' :: s => (splitBefore? ['"'] s).map fun p => p.2.tail
  | '\'' :: s => (splitBefore? ['\''] s).map fun p => p.2.tail
  | c :: s =>
    if isWhite c || ['=', '>', '<', '\x60'].contains c then none
    else some (s.dropWhile fun c => !isWhite c && !(['"', '\'', '=', '>', '<', '\x60'].contains c))

/-- Whether the character can start the name of an attribute. -/
def startsAttribute (c : Char) : Bool := c.isAlpha || c == '_' || c == ':'

/-- Whether the character continues the name of an attribute. -/
def continuesAttribute (c : Char) : Bool :=
  c.isAlphanum || c == '_' || c == '.' || c == ':' || c == '-'

/-- Passes an attribute. -/
def scanAttribute? : List Char → Option (List Char)
  | [] => none
  | c :: s =>
    if startsAttribute c then
      let rest := s.dropWhile continuesAttribute
      match rest.dropWhile isWhite with
      | '=' :: value => scanValue? (value.dropWhile isWhite)
      | _ => some rest
    else none

/-- Passes the attributes of a start tag and its end. At most `fuel` attributes are read. -/
def scanAttributes? : (fuel : Nat) → List Char → Option (List Char)
  | 0, _ => none
  | fuel + 1, s =>
    match s.dropWhile isWhite with
    | '>' :: rest => some rest
    | '/' :: '>' :: rest => some rest
    | '/' :: _ => none
    | t =>
      if (s.head?.map isWhite).getD false then (scanAttribute? t).bind (scanAttributes? fuel)
      else none

/-- Whether the character continues the name of a tag. -/
def continuesTagName (c : Char) : Bool := c.isAlphanum || c == '-'

/-- Passes a start or end tag. -/
def scanTag? : List Char → Option (List Char)
  | '/' :: c :: s =>
    if c.isAlpha then
      match (s.dropWhile continuesTagName).dropWhile isLineSpace with
      | '>' :: rest => some rest
      | _ => none
    else none
  | c :: s =>
    if c.isAlpha then scanAttributes? (s.length + 1) (s.dropWhile continuesTagName) else none
  | [] => none

/-- The text behind the first occurrence of a pattern. -/
def behind? (pattern : List Char) (s : List Char) : Option (List Char) :=
  (splitBefore? pattern s).map fun p => p.2.drop pattern.length

/-- Passes a comment, an instruction, a declaration or a character data section. -/
def scanDeclaration? : List Char → Option (List Char)
  | '?' :: s => behind? "?>".toList s
  | '!' :: '-' :: '-' :: s =>
    match s with
    | '>' :: rest => some rest
    | '-' :: '>' :: rest => some rest
    | _ => behind? "-->".toList s
  | '!' :: c :: s =>
    if "[CDATA[".toList.isPrefixOf (c :: s) then behind? "]]>".toList s
    else if c.isAlpha then behind? ['>'] s
    else none
  | _ => none

/-- Whether the character continues the name of a scheme. -/
def continuesScheme (c : Char) : Bool := c.isAlphanum || c == '.' || c == '-' || c == '+'

/-- Reads an address with a scheme of two to thirty-two characters. -/
def scanAddress? : List Char → Option (List Char × List Char)
  | [] => none
  | c :: s =>
    let scheme := c :: s.takeWhile continuesScheme
    let body := (s.dropWhile continuesScheme).takeWhile fun d => ' ' < d && d != '<' && d != '>'
    if c.isAlpha ∧ 2 ≤ scheme.length ∧ scheme.length ≤ 32 ∧ body.head? = some ':' then
      match (c :: s).drop (scheme.length + body.length) with
      | '>' :: rest => some (scheme ++ body, rest)
      | _ => none
    else none

/-- Whether the character can stand before the `@` of a mail address. -/
def isMailChar (c : Char) : Bool := c.isAlphanum || ".!#$%&'*+/=?^_`\x7b|\x7d~-".toList.contains c

/-- Whether a text is a label of a host name: letters, digits and inner hyphens, at most 63. -/
def isHostLabel (s : List Char) : Bool :=
  !s.isEmpty && s.length ≤ 63 && s.head? != some '-' && s.getLast? != some '-' &&
    s.all fun c => c.isAlphanum || c == '-'

/-- Whether a text is a host name: labels with a `.` between them. -/
def isHostName : List Char → List Char → Bool
  | label, [] => isHostLabel label.reverse
  | label, c :: s =>
    if c = '.' then isHostLabel label.reverse && isHostName [] s else isHostName (c :: label) s

/-- Reads a mail address. -/
def scanMail? (s : List Char) : Option (List Char × List Char) :=
  let user := s.takeWhile isMailChar
  match s.drop user.length with
  | '@' :: t =>
    let host := t.takeWhile fun c => c.isAlphanum || c == '-' || c == '.'
    match t.drop host.length with
    | '>' :: rest =>
      if !user.isEmpty && isHostName [] host then some (user ++ '@' :: host, rest) else none
    | _ => none
  | _ => none

end StaticSite.Markdown

import StaticSite.Html.Attribute
import StaticSite.Html.Node

/-!
# Tokens of HTML source

A token is a stretch of text, a start tag, an end tag, or another piece of markup. Text is cut in
front of each `<` and of each `&`, and behind the `;` of a character reference.

A piece of markup starts with `<` and ends with a `>`; its second character tells which one. The
rule `Markup.closes` decides by what stands before a `>`: a tag is not closed inside quotes, a
comment is closed behind `--`, and so on.

`scan_eq` says that the source of a token and the rest make up the text that was scanned.
-/

namespace StaticSite.Html

open StaticSite.Text

/-- A token of HTML source. -/
inductive Token where
  /-- Text, as it stands in the source. -/
  | text (s : List Char)
  /-- A start tag. -/
  | start (tag : Tag)
  /-- An end tag. -/
  | close (name : String)
  /-- A comment, document type, instruction or character data section. -/
  | leaf (node : Node)

/-- What is wrong with a piece of markup. -/
inductive Malformed where
  /-- The character behind `<!` starts no markup. -/
  | unknown
  /-- No `?>` follows. -/
  | openInstruction
  /-- No `-->` follows. -/
  | openComment
  /-- No `>` follows that ends the document type. -/
  | openDoctype
  /-- No `]]>` follows. -/
  | openCdata
  /-- No `>` follows that ends the tag. -/
  | openTag
  /-- The document type has no name. -/
  | namelessDoctype
deriving DecidableEq, Repr

/-- The description of what is wrong. -/
def Malformed.message : Malformed → String
  | .unknown => "syntax error: unknown or missed symbol in markup"
  | .openInstruction => "syntax error: processing instruction or xml declaration not closed: " ++
      "`?>` not found before end of input"
  | .openComment => "syntax error: comment not closed: `-->` not found before end of input"
  | .openDoctype => "syntax error: DOCTYPE not closed: `>` not found before end of input"
  | .openCdata => "syntax error: CDATA not closed: `]]>` not found before end of input"
  | .openTag => "syntax error: tag not closed: `>` not found before end of input"
  | .namelessDoctype =>
      "ill-formed document: `<!DOCTYPE>` declaration does not contain a name of a document type"

/-- The kinds of markup. -/
inductive Markup where
  /-- A start or end tag. -/
  | tag
  /-- A comment `<!-- -->`. -/
  | comment
  /-- A character data section `<![CDATA[ ]]>`. -/
  | cdata
  /-- A document type `<!DOCTYPE >`. -/
  | doctype
  /-- A processing instruction `<? ?>`. -/
  | instruction
deriving DecidableEq, Repr

/-- Where a character of a tag stands: between quotes, or outside of them. -/
inductive Quoting where
  /-- Outside of quotes. -/
  | outside
  /-- Between quotes of this kind. -/
  | within (quote : Char)
deriving DecidableEq, Repr

/-- The place behind one more character. -/
def Quoting.step (c : Char) : Quoting → Quoting
  | .outside => if c = '"' ∨ c = '\'' then .within c else .outside
  | .within q => if c = q then .outside else .within q

/-- The number of `<` less the number of `>`, where the text is given from its end. -/
def depthFromEnd (before : List Char) : Int :=
  before.foldr (fun c d => if c = '<' then d + 1 else if c = '>' then d - 1 else d) 0

/-- Whether a `>` ends the markup, where `before` is what stands between its `<` and the `>`, from
the end. -/
def Markup.closes : Markup → List Char → Bool
  | .tag, before => before.foldr Quoting.step .outside == .outside
  | .comment, '-' :: '-' :: _ :: _ :: _ :: _ => true
  | .comment, _ => false
  | .cdata, ']' :: ']' :: _ => true
  | .cdata, _ => false
  | .doctype, before => depthFromEnd before == 0
  | .instruction, '?' :: _ => true
  | .instruction, _ => false

/-- What is wrong with markup of which no `>` is the end. -/
def Markup.unclosed : Markup → Malformed
  | .tag => .openTag
  | .comment => .openComment
  | .cdata => .openCdata
  | .doctype => .openDoctype
  | .instruction => .openInstruction

/-- The kind of the markup whose text behind the `<` is given. -/
def Markup.kind? : List Char → Option Markup
  | '!' :: '-' :: _ => some .comment
  | '!' :: '[' :: _ => some .cdata
  | '!' :: 'D' :: _ => some .doctype
  | '!' :: 'd' :: _ => some .doctype
  | '!' :: _ => none
  | '?' :: _ => some .instruction
  | _ => some .tag

/-- Splits the text at the `>` that ends the markup. The list `before` holds what was passed, from
the end. -/
def Markup.cut? (m : Markup) (before : List Char) : List Char → Option (List Char × List Char)
  | [] => none
  | c :: s =>
    if c = '>' ∧ m.closes before then some (before.reverse, s) else cut? m (c :: before) s

theorem Markup.cut?_eq_some {m : Markup} {before s content rest : List Char}
    (h : m.cut? before s = some (content, rest)) :
    before.reverse ++ s = content ++ '>' :: rest := by
  induction s generalizing before with
  | nil => simp [Markup.cut?] at h
  | cons c s ih =>
    unfold Markup.cut? at h
    split at h
    · simp_all
    · simpa using ih h

/-- The text without white space at its end; a text of white space alone stays as it is. -/
def trimName (s : List Char) : List Char :=
  match (s.reverse.dropWhile isSpace).reverse with
  | [] => s
  | t => t

/-- The tag that stands between `<` and `>`. -/
def Tag.ofContent (content : List Char) : Tag :=
  let selfClosing := content.getLast? == some '/'
  let body := if selfClosing then content.dropLast else content
  { name := String.ofList (body.takeWhile (!isSpace ·))
    attrs := readAttrs [] (body.dropWhile (!isSpace ·))
    selfClosing := selfClosing }

/-- The token for what stands between the `<` and the `>` of markup, or what is wrong with it. -/
def Markup.token (m : Markup) (content : List Char) : Except Malformed Token :=
  match m, content with
  | .tag, '/' :: name => .ok (.close (String.ofList (trimName name)))
  | .tag, _ => .ok (.start (.ofContent content))
  | .comment, '!' :: '-' :: '-' :: s =>
    .ok (.leaf (.comment (String.ofList (s.take (s.length - 2)))))
  | .cdata, '!' :: '[' :: 'C' :: 'D' :: 'A' :: 'T' :: 'A' :: '[' :: s =>
    .ok (.leaf (.cdata (String.ofList (s.take (s.length - 2)))))
  | .doctype, _ =>
    if lower (content.take 8) = "!doctype".toList then
      match (content.drop 8).dropWhile isSpace with
      | [] => .error .namelessDoctype
      | s => .ok (.leaf (.doctype (String.ofList s)))
    else .error .openDoctype
  | .instruction, _ :: c :: s =>
    .ok (.leaf (.instruction (String.ofList ((c :: s).take s.length))))
  | m, _ => .error m.unclosed

/-- A token, the text that it was read from, and what follows. -/
structure Scan where
  /-- The token. -/
  token : Token
  /-- The source of the token. -/
  source : List Char
  /-- The text behind the token. -/
  rest : List Char

/-- Where a piece of markup is at fault: at its start, or at the `>` that ends it. -/
structure Fault where
  /-- What is wrong. -/
  what : Malformed
  /-- The number of bytes between the start of the markup and the place. -/
  offset : Nat

/-- Reads the markup that starts with a `<` before the text. -/
def scanMarkup (s : List Char) : Except Fault Scan :=
  match Markup.kind? s with
  | none => .error ⟨.unknown, 0⟩
  | some m =>
    match m.cut? [] s with
    | none => .error ⟨m.unclosed, 0⟩
    | some (content, rest) =>
      match m.token content with
      | .error .namelessDoctype => .error ⟨.namelessDoctype, byteSize content + 1⟩
      | .error what => .error ⟨what, 0⟩
      | .ok token => .ok ⟨token, '<' :: content ++ ['>'], rest⟩

/-- Splits a character reference, without its `&`, from what follows. A reference that no `;` ends
before the next `&` or `<` is taken up to there. -/
def splitReference : List Char → List Char × List Char
  | [] => ([], [])
  | c :: s =>
    if c = ';' then ([c], s)
    else if c = '&' ∨ c = '<' then ([], c :: s)
    else let p := splitReference s; (c :: p.1, p.2)

theorem splitReference_append (s : List Char) :
    (splitReference s).1 ++ (splitReference s).2 = s := by
  induction s with
  | nil => rfl
  | cons c s ih =>
    unfold splitReference
    split
    · rfl
    · split <;> simp [ih]

/-- Whether the character continues a stretch of text. -/
def continuesText (c : Char) : Bool := c != '<' && c != '&'

/-- Reads the token at the start of a text that is not empty. -/
def scan : (c : Char) → List Char → Except Fault Scan
  | '<', s => scanMarkup s
  | '&', s => let p := splitReference s; .ok ⟨.text ('&' :: p.1), '&' :: p.1, p.2⟩
  | c, s =>
    let run := c :: s.takeWhile continuesText
    .ok ⟨.text run, run, s.dropWhile continuesText⟩

/-- The source of a token and the rest make up the text that was scanned. -/
theorem scan_eq {c : Char} {s : List Char} {r : Scan} (h : scan c s = .ok r) :
    r.source ++ r.rest = c :: s := by
  unfold scan at h
  split at h
  · unfold scanMarkup at h
    split at h
    · simp at h
    · split at h
      · simp at h
      · rename_i hc
        have := Markup.cut?_eq_some hc
        split at h <;> simp_all
        rw [← h]; simp
  · cases h; simp [splitReference_append]
  · cases h; simp

theorem scan_source_ne_nil {c : Char} {s : List Char} {r : Scan} (h : scan c s = .ok r) :
    r.source ≠ [] := by
  unfold scan at h
  split at h
  · unfold scanMarkup at h
    split at h
    · simp at h
    · split at h
      · simp at h
      · split at h <;> simp at h
        rw [← h]; simp
  · cases h; simp
  · cases h; simp

end StaticSite.Html

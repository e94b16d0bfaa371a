import StaticSite.Markdown.Event
import StaticSite.Text.Basic

/-!
# Writing events as HTML

Blocks start on a line of their own: a line feed is written before a block unless the output is
empty or ends with one. What an image contains becomes its alternative text, in which only texts
count. Footnotes are numbered in the order in which their labels are met.
-/

namespace StaticSite.Markdown

open StaticSite.Text

/-- How a character is written in text. -/
def bodyChar : Char → List Char
  | '&' => "&amp;".toList
  | '<' => "&lt;".toList
  | '>' => "&gt;".toList
  | c => [c]

/-- How a character is written in an attribute value. -/
def attributeChar : Char → List Char
  | '"' => "&quot;".toList
  | '\'' => "&#39;".toList
  | c => bodyChar c

/-- The hexadecimal digit of a number below sixteen. -/
def hexDigit (n : Nat) : Char :=
  if n < 10 then Char.ofNat ('0'.toNat + n) else Char.ofNat ('A'.toNat + (n - 10))

/-- A byte in an address. -/
def percentByte (b : UInt8) : List Char := ['%', hexDigit (b.toNat / 16), hexDigit (b.toNat % 16)]

/-- The characters that are written as they are in an address, besides letters and digits. -/
def addressMarks : List Char := "!#$%()*+,-./:;=?@_~".toList

/-- How a character is written in an address. -/
def addressChar (c : Char) : List Char :=
  if c.isAlphanum || addressMarks.contains c then [c]
  else if c = '&' then "&amp;".toList
  else if c = '\'' then "&#x27;".toList
  else (String.utf8EncodeChar c).flatMap percentByte

/-- What has been written, and what later output depends on. -/
structure Output where
  /-- The parts of the text, the last one first. -/
  parts : List String := []
  /-- Whether the output is empty or ends with a line feed. -/
  atLineStart : Bool := true
  /-- The alignment of the columns of the table that is written. -/
  columns : List Alignment := []
  /-- Whether the head of a table is written. -/
  inHead : Bool := false
  /-- The column of the next cell. -/
  column : Nat := 0
  /-- The labels of the footnotes met so far, the last one first. -/
  footnotes : List String := []
  /-- Inside an image, the number of containers around the next event, the image included. -/
  imageDepth : Nat := 0
  /-- The title of the image that is written. -/
  imageTitle : String := ""

namespace Output

/-- Whether a text ends with a line feed. -/
def endsLine (s : String) : Bool := s.toList.getLast? == some '\n'

/-- Writes a text as it is. -/
def write (o : Output) (s : String) : Output :=
  if s.isEmpty then o else { o with parts := s :: o.parts, atLineStart := endsLine s }

/-- Writes a text without a change to what counts as the start of a line. -/
def writeRaw (o : Output) (s : String) : Output := { o with parts := s :: o.parts }

/-- Writes a text at the start of a line. -/
def writeBlock (o : Output) (s : String) : Output :=
  o.write (if o.atLineStart then s else "\n" ++ s)

/-- The number of a footnote, by its label. -/
def footnoteNumber (o : Output) (label : String) : Nat × Output :=
  match o.footnotes.reverse.idxOf? label with
  | some i => (i + 1, o)
  | none => (o.footnotes.length + 1, { o with footnotes := label :: o.footnotes })

/-- Writes a title attribute, without the quote that ends it. -/
def writeTitle (o : Output) (title : String) : Output :=
  if title.isEmpty then o else (o.write "\" title=\"").writeRaw (mapChars attributeChar title)

/-- The style of a cell in a column. -/
def cellStyle (columns : List Alignment) (column : Nat) : String :=
  match columns.getD column .unset with
  | .unset => ">"
  | .left => " style=\"text-align: left\">"
  | .center => " style=\"text-align: center\">"
  | .right => " style=\"text-align: right\">"

/-- Writes the start of a link. -/
def writeLink (o : Output) (start address title : String) : Output :=
  (((o.write start).writeRaw (mapChars addressChar address)).writeTitle title).write "\">"

/-- Writes the start of a container. -/
def enter (o : Output) : Container → Output
  | .paragraph => o.writeBlock "<p>"
  | .heading level => o.writeBlock s!"<h{level}>"
  | .quote => o.writeBlock "<blockquote>\n"
  | .codeBlock info =>
    let o := if o.atLineStart then o else o.write "\n"
    let language := (info.getD "").toList.takeWhile (· != ' ')
    if language.isEmpty then o.write "<pre><code>"
    else ((o.write "<pre><code class=\"language-").writeRaw
      (String.ofList (language.flatMap attributeChar))).write "\">"
  | .htmlBlock => o
  | .list none => o.writeBlock "<ul>\n"
  | .list (some start) =>
    if start = 1 then o.writeBlock "<ol>\n" else o.writeBlock s!"<ol start=\"{start}\">\n"
  | .item => o.writeBlock "<li>"
  | .footnote label =>
    let o := (o.writeBlock "<div class=\"footnote-definition\" id=\"").writeRaw
      (mapChars attributeChar label)
    let p := (o.write "\"><sup class=\"footnote-definition-label\">").footnoteNumber label
    p.2.write s!"{p.1}</sup>"
  | .table columns => { o with columns }.write "<table>"
  | .tableHead => { o with inHead := true, column := 0 }.write "<thead><tr>"
  | .tableRow => { o with column := 0 }.write "<tr>"
  | .tableCell => o.write ((if o.inHead then "<th" else "<td") ++ cellStyle o.columns o.column)
  | .emphasis => o.write "<em>"
  | .strong => o.write "<strong>"
  | .deleted => o.write "<del>"
  | .link address title => o.writeLink "<a href=\"" address title
  | .mail address => o.writeLink "<a href=\"mailto:" address ""
  | .image address title =>
    let o := ((o.write "<img src=\"").writeRaw (mapChars addressChar address)).write "\" alt=\""
    { o with imageDepth := 1, imageTitle := title }

/-- Writes the end of a container. -/
def leave (o : Output) : Container → Output
  | .paragraph => o.write "</p>\n"
  | .heading level => o.write s!"</h{level}>\n"
  | .quote => o.write "</blockquote>\n"
  | .codeBlock _ => o.write "</code></pre>\n"
  | .htmlBlock => o
  | .list none => o.write "</ul>\n"
  | .list (some _) => o.write "</ol>\n"
  | .item => o.write "</li>\n"
  | .footnote _ => o.write "</div>\n"
  | .table _ => o.write "</tbody></table>\n"
  | .tableHead => { o with inHead := false }.write "</tr></thead><tbody>\n"
  | .tableRow => o.write "</tr>\n"
  | .tableCell => { o with column := o.column + 1 }.write (if o.inHead then "</th>" else "</td>")
  | .emphasis => o.write "</em>"
  | .strong => o.write "</strong>"
  | .deleted => o.write "</del>"
  | .link .. => o.write "</a>"
  | .mail _ => o.write "</a>"
  | .image .. => o

/-- Writes text without a change to what counts as the start of a line, unless it is text that
ends a line. -/
def writeText (o : Output) (char : Char → List Char) (s : String) : Output :=
  { o.writeRaw (mapChars char s) with atLineStart := endsLine s }

/-- Writes an event that stands outside of images. -/
def put (o : Output) : Event → Output
  | .enter c => o.enter c
  | .leave c => o.leave c
  | .text s => o.writeText bodyChar s
  | .code s => ((o.write "<code>").writeRaw (mapChars bodyChar s)).write "</code>"
  | .html s => o.write s
  | .inlineHtml s => o.write s
  | .softBreak => o.write "\n"
  | .hardBreak => o.write "<br />\n"
  | .rule => o.writeBlock "<hr />\n"
  | .footnoteReference label =>
    let o := (o.write "<sup class=\"footnote-reference\"><a href=\"#").writeRaw
      (mapChars attributeChar label)
    let p := (o.write "\">").footnoteNumber label
    p.2.write s!"{p.1}</a></sup>"
  | .task true => o.write "<input disabled=\"\" type=\"checkbox\" checked=\"\"/>\n"
  | .task false => o.write "<input disabled=\"\" type=\"checkbox\"/>\n"

/-- Adds an event to the alternative text of an image, or ends the image. -/
def putInImage (o : Output) : Event → Output
  | .enter _ => { o with imageDepth := o.imageDepth + 1 }
  | .leave _ =>
    if o.imageDepth = 1 then
      ({ o with imageDepth := 0 }.writeTitle o.imageTitle).write "\" />"
    else { o with imageDepth := o.imageDepth - 1 }
  | .text s | .code s | .inlineHtml s => o.writeText attributeChar s
  | .html _ => o
  | .softBreak | .hardBreak | .rule => o.write " "
  | .footnoteReference label =>
    let p := o.footnoteNumber label
    p.2.write s!"[{p.1}]"
  | .task true => o.write "[x]"
  | .task false => o.write "[ ]"

/-- Writes an event. -/
def step (o : Output) (e : Event) : Output := if o.imageDepth = 0 then o.put e else o.putInImage e

end Output

/-- Writes events as HTML. -/
def toHtml (events : List Event) : String :=
  String.join (events.foldl Output.step {}).parts.reverse

end StaticSite.Markdown

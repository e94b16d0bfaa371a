/-!
# The events of a document

A Markdown document is read as a list of events in source order. A container, such as a paragraph or
a link, is entered and left; everything else is a single event. Each event comes with the stretch of
the source that it was read from.
-/

namespace StaticSite.Markdown

/-- How the cells of a table column are aligned. -/
inductive Alignment where
  /-- As the browser likes. -/
  | unset
  /-- To the left. -/
  | left
  /-- To the middle. -/
  | center
  /-- To the right. -/
  | right
deriving DecidableEq, Repr, Inhabited

/-- The containers. -/
inductive Container where
  /-- A paragraph. -/
  | paragraph
  /-- A heading of a level from 1 to 6. -/
  | heading (level : Nat)
  /-- A block quote. -/
  | quote
  /-- A code block; one between fences has an info string. -/
  | codeBlock (info : Option String)
  /-- A block of raw HTML. -/
  | htmlBlock
  /-- A list; an ordered one has the number of its first item. -/
  | list (start : Option Nat)
  /-- An item of a list. -/
  | item
  /-- The text of a footnote. -/
  | footnote (label : String)
  /-- A table. -/
  | table (columns : List Alignment)
  /-- The head of a table. -/
  | tableHead
  /-- A row of a table. -/
  | tableRow
  /-- A cell of a table. -/
  | tableCell
  /-- Emphasis. -/
  | emphasis
  /-- Strong emphasis. -/
  | strong
  /-- Deleted text. -/
  | deleted
  /-- A link. -/
  | link (address title : String)
  /-- A link to a mail address. -/
  | mail (address : String)
  /-- An image. -/
  | image (address title : String)
deriving DecidableEq, Repr

/-- Whether the container stands within a line of text. -/
def Container.isInline : Container → Bool
  | .emphasis | .strong | .deleted | .link .. | .mail _ | .image .. => true
  | _ => false

/-- An event. -/
inductive Event where
  /-- A container starts. -/
  | enter (c : Container)
  /-- A container ends. -/
  | leave (c : Container)
  /-- Text. -/
  | text (s : String)
  /-- Code within a line. -/
  | code (s : String)
  /-- Raw HTML that stands between blocks. -/
  | html (s : String)
  /-- Raw HTML that stands within a line. -/
  | inlineHtml (s : String)
  /-- A line break that only separates words. -/
  | softBreak
  /-- A line break that is kept. -/
  | hardBreak
  /-- A thematic break. -/
  | rule
  /-- A reference to a footnote. -/
  | footnoteReference (label : String)
  /-- The box of a task, with a mark in it or empty. -/
  | task (done : Bool)
deriving DecidableEq, Repr

/-- A stretch of the source, from a first character up to another one. -/
structure Span where
  /-- The place of the first character. -/
  start : Nat
  /-- The place behind the last character. -/
  stop : Nat
deriving DecidableEq, Repr, Inhabited

/-- A document, or part of one: events and what they stand within. -/
inductive Tree where
  /-- A container with what it contains. -/
  | node (c : Container) (span : Span) (children : List Tree)
  /-- A single event. -/
  | leaf (e : Event) (span : Span)

instance : Inhabited Tree := ⟨.leaf .softBreak ⟨0, 0⟩⟩

mutual

/-- The events of a tree with their places. -/
def Tree.events : Tree → List (Event × Span)
  | .node c span children =>
    (.enter c, span) :: (eventsOf children ++ [(.leave c, span)])
  | .leaf e span => [(e, span)]

/-- The events of a list of trees with their places. -/
def eventsOf : List Tree → List (Event × Span)
  | [] => []
  | t :: ts => Tree.events t ++ eventsOf ts

end

end StaticSite.Markdown

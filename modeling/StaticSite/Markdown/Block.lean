import StaticSite.Markdown.Inline
import StaticSite.Markdown.LineForm

/-!
# Blocks

The lines of a document are read one after another. Block quotes, list items and footnotes are open
until a line comes that does not continue them; a line behind the markers of the open blocks can
open further ones. Inside the innermost block, a *leaf* is read: a paragraph, a code block, an HTML
block or a table, which takes lines until one ends it.

A list is loose if a blank line stands between two of its items, or between two blocks of an item;
the paragraphs of the items of other lists are written without being marked as paragraphs.
-/

namespace StaticSite.Markdown

/-- A block that has been read. -/
inductive Block where
  /-- A container of blocks. -/
  | group (c : Container) (span : Span) (children : List Block)
  /-- A container of text, or text alone; the box of a task may stand before it. -/
  | texts (c : Option Container) (span : Span) (box : Option (Bool × Span)) (glyphs : List Glyph)
  /-- A single event. -/
  | leaf (e : Event) (span : Span)

instance : Inhabited Block := ⟨.leaf .rule ⟨0, 0⟩⟩

mutual

/-- The trees of a block. -/
def Block.trees (ctx : Context) : Block → List Tree
  | .group c span children => [.node c span (treesOf ctx children)]
  | .texts c span box glyphs =>
    let content := (box.map fun b => Tree.leaf (.task b.1) b.2).toList ++ inlineTrees ctx glyphs
    match c with
    | some c => [.node c span content]
    | none => content
  | .leaf e span => [.leaf e span]

/-- The trees of a list of blocks. -/
def treesOf (ctx : Context) : List Block → List Tree
  | [] => []
  | b :: bs => Block.trees ctx b ++ treesOf ctx bs

end

/-- A block that takes further blocks. -/
inductive Nesting where
  /-- A block quote. -/
  | quote
  /-- A list: whether it is tight so far, what its markers are told apart by, its first number. -/
  | list (tight : Bool) (marker : Char) (start : Nat)
  /-- A list item, whose content is indented by some columns. -/
  | item (indent : Nat)
  /-- The text of a footnote. -/
  | footnote (label : String)
deriving Repr

/-- An open block. -/
structure OpenBlock where
  /-- Its kind. -/
  kind : Nesting
  /-- Where it starts. -/
  start : Nat
  /-- The blocks inside it, the last one first. -/
  children : List Block := []

/-- The marker or indentation that continues a block, if a line has it. -/
def Nesting.pass? (k : Nesting) (c : Cursor) : Option Cursor :=
  match k with
  | .quote => (c.skipColumns 3).2.quoteMarker?
  | .list .. => some c
  | .item indent => c.skipIndent? indent
  | .footnote _ => c.skipIndent? 4

/-- The number of blocks that a line continues, from the outermost on, and the place behind their
markers. -/
def passBlocks : (outermostFirst : List OpenBlock) → Cursor → Nat × Cursor
  | [], c => (0, c)
  | b :: bs, c =>
    match b.kind.pass? c with
    | none => (0, c)
    | some c => let p := passBlocks bs c; (p.1 + 1, p.2)

/-- The paragraphs of an item of a tight list are plain text. -/
def Block.tighten : Block → Block
  | .texts (some .paragraph) span box glyphs => .texts none span box glyphs
  | b => b

/-- Tightens the items of a list. -/
def Block.tightenItem : Block → Block
  | .group c span children => .group c span (children.map Block.tighten)
  | b => b

/-- The block that an open block becomes. -/
def OpenBlock.close (b : OpenBlock) (stop : Nat) : Block :=
  let children := b.children.reverse
  let span : Span := ⟨b.start, stop⟩
  match b.kind with
  | .quote => .group .quote span children
  | .item _ => .group .item span children
  | .footnote label => .group (.footnote label) span children
  | .list tight marker start =>
    let ordered := if isBullet marker then none else some start
    .group (.list ordered) span (if tight then children.map Block.tightenItem else children)

/-- What is read inside the innermost block. -/
inductive Leaf where
  /-- A paragraph: the glyphs of its lines, the last line first. -/
  | paragraph (start : Nat) (box : Option (Bool × Span)) (lines : List (List Glyph))
  /-- A code block between fences, which are indented by some columns. -/
  | fenced (start : Nat) (fence : Fence) (indent : Nat) (info : String) (content : List Block)
  /-- An indented code block, with its content up to the last line that is not blank. -/
  | indented (start : Nat) (content kept : List Block) (keptStop : Nat)
  /-- A block of raw HTML. -/
  | html (start : Nat) (ending : HtmlEnd) (content : List Block)
  /-- A table. -/
  | table (start : Nat) (columns : List Alignment) (rows : List Block)

/-- A document of which some lines were read. -/
structure Reading where
  /-- The open blocks, the innermost first. -/
  opened : List OpenBlock := []
  /-- The blocks outside of all open ones, the last one first. -/
  blocks : List Block := []
  /-- What is read inside the innermost block. -/
  leaf : Option Leaf := none
  /-- Whether a blank line came last. -/
  blankBefore : Bool := false
  /-- The place behind the line of a list item that is empty so far. -/
  emptyItem : Option Nat := none
  /-- The box of a task whose text is still to come. -/
  box : Option (Bool × Span) := none
  /-- The definitions, the last one first. -/
  definitions : List Definition := []
  /-- The keys of the labels of the footnotes. -/
  footnotes : List (List Char) := []
  /-- The number of lines that were read ahead. -/
  ahead : Nat := 0

namespace Reading

/-- Adds a block inside the innermost open block. -/
def add (r : Reading) (b : Block) : Reading :=
  match r.opened with
  | [] => { r with blocks := b :: r.blocks }
  | o :: os => { r with opened := { o with children := b :: o.children } :: os }

/-- Closes the innermost open block. -/
def closeBlock (r : Reading) (stop : Nat) : Reading :=
  match r.opened with
  | [] => r
  | o :: os =>
    let r := { r with opened := os }.add (o.close stop)
    match o.kind with
    | .list true .. => { r with emptyItem := none }
    | _ => r

/-- Closes a number of open blocks. -/
def closeBlocks (r : Reading) (stop : Nat) : Nat → Reading
  | 0 => r
  | n + 1 => (r.closeBlock stop).closeBlocks stop n

/-- Opens a block. -/
def openBlock (r : Reading) (kind : Nesting) (start : Nat) : Reading :=
  { r with opened := { kind, start } :: r.opened }

/-- Makes a list loose. -/
def loosen (o : OpenBlock) : OpenBlock :=
  match o.kind with
  | .list _ marker start => { o with kind := .list false marker start }
  | _ => o

/-- Closes a list item that is empty although a blank line followed. -/
def closeEmptyItem (r : Reading) : Reading :=
  let closed := match r.emptyItem, r.opened with
    | some stop, ⟨.item _, _, _⟩ :: _ => if r.blankBefore then r.closeBlock stop else r
    | _, _ => r
  { closed with emptyItem := none }

/-- Closes an open list. If a blank line came last, the list around it is loose. -/
def closeList (r : Reading) (stop : Nat) : Reading :=
  let r := r.closeEmptyItem
  let r := match r.opened with
    | ⟨.list .., _, _⟩ :: _ => r.closeBlock stop
    | _ => r
  if r.blankBefore then
    match r.opened with
    | o :: p :: os => { r with opened := o :: loosen p :: os, blankBefore := false }
    | _ => { r with blankBefore := false }
  else r

/-- Goes on with an open list, or opens one. -/
def continueList (r : Reading) (start : Nat) (marker : Char) (number : Nat) : Reading :=
  let r := r.closeEmptyItem
  let fresh (r : Reading) : Reading :=
    { r.openBlock (.list true marker number) start with blankBefore := false }
  match r.opened with
  | [] => fresh r
  | o :: os =>
    match o.kind with
    | .list _ existing _ =>
      if existing = marker then
        if r.blankBefore then { r with opened := loosen o :: os, blankBefore := false } else r
      else fresh (r.closeList start)
    | _ => fresh (r.closeList start)

/-- The number of open blocks that a line continues, and the place behind their markers. -/
def pass (r : Reading) (l : Line) : Nat × Cursor := passBlocks r.opened.reverse (.ofLine l)

/-- Whether a line continues all open blocks. -/
def continuesAll (r : Reading) (passed : Nat) : Bool := passed == r.opened.length

/-- The alignments of the table that a line is the head of: the next line gives them to as many
columns as the head has. -/
def tableHead? (r : Reading) (s : List Char) (next : Option Line) : Option (List Alignment) :=
  match next with
  | none => none
  | some l =>
    let p := r.pass l
    if r.continuesAll p.1 && (countPipes ' ' s).1 != 0 then
      match alignments? p.2.rest with
      | some columns => if columns.length = countColumns s then some columns else none
      | none => none
    else none

/-- Whether a line starts the text of a footnote: the label, and what follows the colon. -/
def footnoteStart? : List Char → Option (List Char × List Char)
  | '[' :: '^' :: s =>
    match readLabel? false s with
    | some (label, ':' :: rest) => some (label, rest)
    | _ => none
  | _ => none

/-- Whether a line ends a paragraph. -/
def interrupts (r : Reading) (s : List Char) (continued inTable : Bool) (next : Option Line) :
    Bool :=
  s.isEmpty || isThematicBreak s || (headingLevel? s).isSome || (fence? s).isSome ||
    s.head? == some '>' || startsItem s (!continued || inTable) || startsHtml s ||
    (footnoteStart? s).isSome || (s.head? == some '|' && (r.tableHead? s next).isSome)

/-- The glyphs of a stretch of a line. -/
def glyphsAt (place : Nat) (s : List Char) : List Glyph :=
  s.zipIdx.map fun p => ⟨p.1, place + p.2, place + p.2 + 1⟩

/-- The glyphs of the rest of a line with its end. -/
def lineGlyphs (l : Line) (c : Cursor) : List Glyph :=
  glyphsAt c.pos c.rest ++
    if l.ending.isEmpty then [] else [⟨'\n', l.start + l.text.length, l.stop⟩]

/-- The glyphs of lines, the last line first, without the end of the last line. -/
def joinLines (lines : List (List Glyph)) : List Glyph :=
  let glyphs := lines.reverse.flatten
  if (glyphs.getLast?.map Glyph.char) = some '\n' then glyphs.dropLast else glyphs

/-- The text of the cells of a row. A `|` behind a backslash does not end a cell, and stands
without the backslash. -/
def rowGlyphs (pending : List Glyph) : List Glyph → List (List Glyph)
  | [] => [pending.reverse]
  | g :: gs =>
    match gs with
    | h :: hs =>
      if g.char = '\\' ∧ h.char = '|' then rowGlyphs (h :: pending) hs
      else if g.char = '|' then pending.reverse :: rowGlyphs [] (h :: hs)
      else rowGlyphs (g :: pending) (h :: hs)
    | [] => if g.char = '|' then [pending.reverse, []] else [(g :: pending).reverse]

/-- The cells of a row: a blank first cell before a `|` and a blank last one are none. -/
def cellsOf (s : List Glyph) : List (List Glyph) :=
  let s := s.dropWhile fun g => isLineSpace g.char
  let cells := rowGlyphs [] (if (s.head?.map Glyph.char) = some '|' then s.tail else s)
  match cells.getLast? with
  | some cell => if cell.all (isLineSpace ·.char) then cells.dropLast else cells
  | none => cells

/-- A cell of a table. -/
def cellBlock (cell : List Glyph) (stop : Nat) : Block :=
  let start := (cell.head?.map Glyph.start).getD stop
  .texts (some .tableCell) ⟨start, stopOf start cell⟩ none
    (cell.dropWhile fun g => isLineSpace g.char)

/-- A row of a table, filled up or cut to the number of columns. -/
def rowBlock? (c : Container) (columns start stop : Nat) (s : List Glyph) : Option Block :=
  let cells := cellsOf s
  if cells.isEmpty then none
  else
    let missing := List.replicate (columns - cells.length)
      (Block.texts (some .tableCell) ⟨stop, stop⟩ none [])
    some (.group c ⟨start, stop⟩ ((cells.take columns).map (cellBlock · stop) ++ missing))

/-- Adds text of the source to a code block; text right behind other text joins it. -/
def addText (content : List Block) (s : List Char) (start : Nat) : List Block :=
  let stop := start + s.length
  if s.isEmpty then content
  else match content with
    | .leaf (.text t) span :: rest =>
      if span.stop = start ∧ span.start < span.stop then
        .leaf (.text (t ++ String.ofList s)) ⟨span.start, stop⟩ :: rest
      else .leaf (.text (String.ofList s)) ⟨start, stop⟩ :: content
    | _ => .leaf (.text (String.ofList s)) ⟨start, stop⟩ :: content

/-- Adds spaces that have no source of their own. -/
def addSpaces (content : List Block) (n place : Nat) : List Block :=
  if n = 0 then content
  else .leaf (.text (String.ofList (List.replicate n ' '))) ⟨place, place⟩ :: content

/-- Adds the rest of a line to a code block; the line ends with a line feed whatever ends it. -/
def addCode (content : List Block) (spaces : Nat) (c : Cursor) (l : Line) : List Block :=
  let content := addSpaces content spaces c.pos
  if l.ending = ['\r', '\n'] then addText (addText content c.rest c.pos) ['\n'] (l.stop - 1)
  else addText content (c.rest ++ l.ending) c.pos

/-- Adds the rest of a line to a block of raw HTML. -/
def addHtml (content : List Block) (spaces : Nat) (c : Cursor) (l : Line) : List Block :=
  let content := addSpaces content spaces c.pos
  let leaf (s : List Char) (start stop : Nat) : Block :=
    .leaf (.html (String.ofList s)) ⟨start, stop⟩
  if l.ending = ['\r', '\n'] then
    leaf ['\n'] (l.stop - 1) l.stop :: leaf c.rest c.pos (l.stop - 2) :: content
  else leaf (c.rest ++ l.ending) c.pos l.stop :: content

/-- Closes what is read inside the innermost block. -/
def closeLeaf (r : Reading) (stop : Nat) : Reading :=
  match r.leaf with
  | none => r
  | some leaf =>
    let r := { r with leaf := none }
    match leaf with
    | .paragraph start box lines =>
      r.add (.texts (some .paragraph) ⟨start, stop⟩ box (joinLines lines))
    | .fenced start _ _ info content =>
      r.add (.group (.codeBlock (some info)) ⟨start, stop⟩ content.reverse)
    | .indented start _ kept keptStop =>
      r.add (.group (.codeBlock none) ⟨start, keptStop⟩ kept.reverse)
    | .html start _ content => r.add (.group .htmlBlock ⟨start, stop⟩ content.reverse)
    | .table start columns rows => r.add (.group (.table columns) ⟨start, stop⟩ rows.reverse)

/-- The text of a line in a definition. -/
def definitionLine (l : Line) (c : Cursor) : List Char :=
  c.rest ++ if l.ending.isEmpty then [] else ['\n']

/-- The lines that a paragraph would take, as they count for a definition. -/
def followingText (r : Reading) : List Line → List Char
  | [] => []
  | l :: ls =>
    let p := r.pass l
    let q := p.2.skipColumns 4
    if p.2.isBlank || (q.1 != 0 && r.interrupts q.2.rest (r.continuesAll p.1) false ls.head?) then
      []
    else definitionLine l p.2 ++ followingText r ls

/-- Reads the definition that a line starts, and the lines that belong to it. -/
def readDefinition? (r : Reading) (l : Line) (c : Cursor) (next : List Line) : Option Reading :=
  if c.rest.head? != some '[' then none
  else
    let text := definitionLine l c ++ r.followingText next
    match Markdown.readDefinition? text with
    | none => none
    | some (d, rest) =>
      let used := text.take (text.length - rest.length)
      let lines := used.count '\n' + if used.getLast? = some '\n' then 0 else 1
      some { r with definitions := d :: r.definitions, ahead := lines - 1 }

/-- The text of a heading without the `#` at its end. -/
def headingText (s : List Char) : List Char :=
  let cut (c : Char) (s : List Char) : List Char := (s.reverse.dropWhile (· == c)).reverse
  let trimmed := cut ' ' s
  let body := cut '#' trimmed
  if body.isEmpty then [] else if body.getLast? = some ' ' then cut ' ' body else trimmed

/-- Whether a line ends with a backslash that keeps the line break. -/
def endsWithBackslash (s : List Char) : Bool := (s.reverse.takeWhile (· == '\\')).length % 2 == 1

/-- Starts a table or a paragraph. -/
def startText (r : Reading) (l : Line) (c : Cursor) (next : List Line) : Reading :=
  let table := if endsWithBackslash c.rest then none else r.tableHead? c.rest next.head?
  match table with
  | some columns =>
    let head := rowBlock? .tableHead columns.length c.pos l.stop (glyphsAt c.pos c.rest)
    { r with leaf := some (.table c.pos columns head.toList), box := none, ahead := 1 }
  | none => { r with leaf := some (.paragraph c.pos r.box [lineGlyphs l c]), box := none }

/-- Starts a leaf with a line that is not blank. The columns of indentation before the place are
given, and those that were left of a tab. -/
def startLeaf (r : Reading) (l : Line) (c : Cursor) (indent spaces : Nat) (next : List Line) :
    Reading :=
  match htmlBlock? c.rest with
  | some ending =>
    let r := { r with leaf := some (.html c.pos ending (addHtml [] (max spaces indent) c l)) }
    match ending with
    | .text t => if Text.occursIn t c.rest then r.closeLeaf l.stop else r
    | .blank => r
  | none =>
    if isThematicBreak c.rest then r.add (.leaf .rule ⟨c.pos, l.stop⟩)
    else match headingLevel? c.rest with
      | some level =>
        let behind := c.rest.drop level
        let text := behind.dropWhile isLineSpace
        let place := c.pos + level + (behind.length - text.length)
        r.add (.texts (some (.heading level)) ⟨c.pos, l.stop⟩ none
          (glyphsAt place (headingText text)))
      | none =>
        match fence? c.rest with
        | some f =>
          let info := (c.rest.drop f.count).dropWhile isLineSpace
          let info := (info.reverse.dropWhile isLineSpace).reverse
          { r with leaf := some (.fenced c.pos f indent (String.ofList (unescape info)) []) }
        | none => (r.readDefinition? l c next).getD (r.startText l c next)

/-- Opens the blocks that a line starts, one after another, and gives the place behind their markers
and where the line starts inside them; `none` if nothing is left of the line. -/
def openBlocks (l : Line) : (fuel : Nat) → Reading → Cursor → Nat →
    Reading × Option (Cursor × Nat)
  | 0, r, c, start => (r, some (c, start))
  | fuel + 1, r, c, start =>
    let p := c.skipUpTo 4
    if 4 ≤ p.1 then (r, some (c, start))
    else
      let inner := p.2
      match footnoteStart? inner.rest with
      | some (label, rest) =>
        let r := r.closeList inner.pos
        let r := match r.opened with
          | ⟨.footnote _, _, _⟩ :: _ => r.closeBlock inner.pos
          | _ => r
        let r := { r with footnotes := labelKey label :: r.footnotes }
        let body := rest.dropWhile isLineSpace
        let place := inner.pos + (inner.rest.length - body.length)
        openBlocks l fuel (r.openBlock (.footnote (String.ofList label)) inner.pos)
          { pos := place, rest := body } place
      | none =>
        match inner.listMarker? p.1 with
        | some (m, indent, behind) =>
          let place := inner.pos - p.1
          let r := (r.continueList place m.char m.number).openBlock (.item indent) place
          if behind.isBlank then ({ r with emptyItem := some l.stop }, none)
          else match behind.taskMarker? with
            | none => openBlocks l fuel r behind start
            | some (done, text) =>
              let box := (done, (⟨behind.pos, text.pos⟩ : Span))
              if text.isBlank then
                (r.add (.texts none ⟨behind.pos, text.pos⟩ (some box) []), none)
              else openBlocks l fuel { r with box := some box } text start
        | none =>
          match inner.quoteMarker? with
          | some behind =>
            openBlocks l fuel ((r.closeList start).openBlock .quote inner.pos) behind start
          | none => (r, some (c, start))

/-- Notes a blank line. A list item that is empty so far needs no indentation from now on, since
nothing can be put into it. -/
def noteBlank (r : Reading) : Reading :=
  match r.opened with
  | [] => r
  | ⟨.quote, _, _⟩ :: _ => r
  | ⟨.item indent, start, children⟩ :: os =>
    let indent := if r.emptyItem.isSome then 0 else indent
    { r with opened := ⟨.item indent, start, children⟩ :: os, blankBefore := true }
  | _ => { r with blankBefore := true }

/-- Reads a line that continues no leaf. -/
def readFresh (r : Reading) (l : Line) (next : List Line) : Reading :=
  let p := r.pass l
  let r := r.closeBlocks l.start (r.opened.length - p.1)
  match openBlocks l (l.text.length + 1) r p.2 l.start with
  | (r, none) => r
  | (r, some (c, start)) =>
    if c.isBlank then r.noteBlank
    else
      let r := r.closeList start
      let q := c.skipUpTo 4
      if q.1 = 4 then
        let content := addCode [] q.2.pending q.2 l
        { r with leaf := some (.indented q.2.pos content content l.stop), blankBefore := false }
      else r.startLeaf l q.2 q.1 c.pending next

/-- Reads a line with what is read inside the innermost block. -/
def readInLeaf (r : Reading) (leaf : Leaf) (l : Line) (next : List Line) : Reading :=
  let p := r.pass l
  let continued := r.continuesAll p.1
  let c := p.2
  let otherwise := fun (_ : Unit) => (r.closeLeaf l.start).readFresh l next
  match leaf with
  | .paragraph start box lines =>
    let q := c.skipColumns 4
    let shallow := q.1 != 0
    match (if shallow && continued then underlineLevel? q.2.rest else none) with
    | some level =>
      { r with leaf := none }.add
        (.texts (some (.heading level)) ⟨start, l.stop⟩ box (joinLines lines))
    | none =>
      if c.isBlank || (shallow && r.interrupts q.2.rest continued false next.head?) then
        otherwise ()
      else { r with leaf := some (.paragraph start box (lineGlyphs l c :: lines)) }
  | .fenced start f indent info content =>
    if !continued then otherwise ()
    else
      let c := (c.skipColumns indent).2
      let q := c.skipColumns (4 - indent)
      match (if q.1 != 0 then f.closes? q.2.rest else none) with
      | some length => r.closeLeaf (q.2.pos + length)
      | none =>
        { r with leaf := some (.fenced start f indent info (addCode content c.pending c l)) }
  | .indented start content kept keptStop =>
    match (if continued then c.skipIndent? 4 else none) with
    | none => otherwise ()
    | some c =>
      let content := addCode content c.pending c l
      if c.isBlank then
        { r with leaf := some (.indented start content kept keptStop), blankBefore := true }
      else
        { r with leaf := some (.indented start content content l.stop), blankBefore := false }
  | .html start (.text t) content =>
    if !continued then otherwise ()
    else
      let r := { r with leaf := some (.html start (.text t) (addHtml content c.pending c l)) }
      if Text.occursIn t c.rest then r.closeLeaf l.stop else r
  | .html start .blank content =>
    if !continued || c.isBlank then otherwise ()
    else { r with leaf := some (.html start .blank (addHtml content c.pending c l)) }
  | .table start columns rows =>
    let c := c.skipSpaces
    if !continued || c.isBlank || r.interrupts c.rest true true next.head? then otherwise ()
    else match rowBlock? .tableRow columns.length c.pos l.stop (glyphsAt c.pos c.rest) with
      | none => otherwise ()
      | some row => { r with leaf := some (.table start columns (row :: rows)) }

/-- Reads a line, unless it was read ahead. -/
def readLine (r : Reading) (l : Line) (next : List Line) : Reading :=
  match r.ahead with
  | n + 1 => { r with ahead := n }
  | 0 =>
    match r.leaf with
    | some leaf => r.readInLeaf leaf l next
    | none => r.readFresh l next

/-- Reads lines. -/
def readLines (r : Reading) : List Line → Reading
  | [] => r
  | l :: ls => (r.readLine l ls).readLines ls

/-- Closes everything at the end of the document. -/
def finish (r : Reading) (stop : Nat) : Reading :=
  let r := r.closeLeaf stop
  r.closeBlocks stop r.opened.length

end Reading

/-- The events of a document with their places. -/
def eventsAt (source : List Char) : List (Event × Span) :=
  let r := (({} : Reading).readLines (linesOf source)).finish source.length
  let ctx : Context :=
    { source := source.toArray
      targets := r.definitions.reverse.map fun d => (labelKey d.label, d.target)
      footnotes := r.footnotes }
  eventsOf (treesOf ctx r.blocks.reverse)

/-- The events of a document with the stretches of source that they were read from. -/
def events (source : List Char) : List (Event × List Char) :=
  let chars := source.toArray
  (eventsAt source).map fun e => (e.1, slice chars e.2)

end StaticSite.Markdown

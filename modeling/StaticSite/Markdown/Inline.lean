import StaticSite.Markdown.Definition
import StaticSite.Markdown.Emphasis
import StaticSite.Markdown.RawTag

/-!
# Links, code and raw HTML within a text

Tokens are read from left to right. Code and raw HTML bind tighter than links, and links bind
tighter than emphasis. A bracket that starts a link or an image is kept open, with what stands
before it, until a bracket closes it: an address between parentheses, a label, or the text between
the brackets as a label makes it a link. Otherwise both brackets are text. A link has no links
inside it.
-/

namespace StaticSite.Markdown

open StaticSite.Text

/-- What the definitions of a document give to its texts. -/
structure Context where
  /-- The source. -/
  source : Array Char
  /-- The keys of the labels that are defined, with what they stand for. The first one counts. -/
  targets : List (List Char × Target)
  /-- The keys of the labels of the footnotes. -/
  footnotes : List (List Char)

/-- The characters of a stretch of the source. -/
def slice (source : Array Char) (span : Span) : List Char :=
  (source.extract span.start span.stop).toList

/-- An open bracket, with what stands before it from the last to the first. -/
structure Bracket where
  /-- Whether it starts an image. -/
  isImage : Bool
  /-- Whether it can start a link or image. -/
  active : Bool
  /-- Its place. -/
  span : Span
  /-- The text behind it. -/
  after : List Glyph
  /-- What stands before it. -/
  before : List Inline

/-- A text leaf. -/
def textAt (s : List Char) (span : Span) : Inline := .tree (.leaf (.text (String.ofList s)) span)

/-- Takes an open bracket for text. -/
def Bracket.close (b : Bracket) (out : List Inline) : List Inline :=
  out ++ textAt (if b.isImage then ['!', '['] else ['[']) b.span :: b.before

/-- What is collected when all open brackets are taken for text. -/
def closeBrackets (out : List Inline) : List Bracket → List Inline
  | [] => out
  | b :: bs => closeBrackets (b.close out) bs

/-- The open brackets after a link was found: none of them starts a link any more. -/
def deactivate (bs : List Bracket) : List Bracket :=
  bs.map fun b => if b.isImage then b else { b with active := false }

/-- Code between back quotes: line ends become spaces, and one space is taken off at both ends
unless all is spaces. -/
def codeText (s : List Char) : List Char :=
  let s := s.map fun c => if c = '\n' then ' ' else c
  if s.head? = some ' ' ∧ s.getLast? = some ' ' ∧ s.any (· != ' ') then s.tail.dropLast else s

/-- The first back quotes of a number among tokens: their places, and the tokens behind them. -/
def findTicks (count : Nat) : List Token → Option (Nat × List Token)
  | [] => none
  | .ticks n _ start _ :: ts => if n = count then some (start, ts) else findTicks count ts
  | _ :: ts => findTicks count ts

theorem length_findTicks {count : Nat} {ts : List Token} {p : Nat × List Token}
    (h : findTicks count ts = some p) : p.2.length ≤ ts.length := by
  induction ts with
  | nil => simp [findTicks] at h
  | cons t ts ih =>
    unfold findTicks at h
    split at h
    · simp at h
    · rename_i heq; cases heq
      split at h
      · cases h; simp
      · have := ih h; simp; omega
    · rename_i heq; cases heq
      have := ih h; simp; omega

/-- What was read behind a token: a tree, or text if nothing was found, and the place where reading
goes on. -/
structure Found where
  /-- What was found. -/
  item : Inline
  /-- The place behind it. -/
  stop : Nat

/-- The place behind the first glyphs of a list. -/
def placeAfter (place count : Nat) (after : List Glyph) : Nat := stopOf place (after.take count)

/-- What a `<` starts: a link to an address, or raw HTML. -/
def readAngle (ctx : Context) (span : Span) (after : List Glyph) : Option Found :=
  let chars := after.map Glyph.char
  let stopFor (rest : List Char) := placeAfter span.stop (chars.length - rest.length) after
  let linked (make : String → Container) (address rest : List Char) : Found :=
    let stop := stopFor rest
    ⟨.tree (.node (make (String.ofList address)) ⟨span.start, stop⟩
      [.leaf (.text (String.ofList address)) ⟨span.stop, stop - 1⟩]), stop⟩
  match scanAddress? chars with
  | some (address, rest) => some (linked (.link · "") address rest)
  | none =>
    match scanMail? chars with
    | some (address, rest) => some (linked .mail address rest)
    | none =>
      match scanDeclaration? chars with
      | some rest =>
        let span : Span := ⟨span.start, stopFor rest⟩
        some ⟨.tree (.leaf (.inlineHtml (String.ofList (slice ctx.source span))) span), span.stop⟩
      | none =>
        match scanTag? chars with
        | some rest =>
          let used := after.take (chars.length - rest.length)
          let text := '<' :: used.flatMap fun g => slice ctx.source ⟨g.start, g.stop⟩
          let span : Span := ⟨span.start, stopFor rest⟩
          some ⟨.tree (.leaf (.inlineHtml (String.ofList text)) span), span.stop⟩
        | none => none

/-- A label between brackets. -/
inductive Label where
  /-- The label of a definition. -/
  | definition (s : List Char)
  /-- The label of a footnote. -/
  | footnote (s : List Char)

/-- Reads a label behind a `[`. A footnote has a `^` before its label, which stands in one line. -/
def readLabelKind? (s : List Char) : Option (Label × List Char) :=
  let plain := (readLabel? true s).map fun p => (.definition p.1, p.2)
  match s with
  | '^' :: c :: t =>
    if c = ']' then plain
    else match readLabel? false (c :: t) with
      | some (label, rest) => some (.footnote label, rest)
      | none => plain
  | _ => plain

/-- What follows the brackets of a link. -/
inductive Following where
  /-- A label of its own, and the place behind it. -/
  | label (s : List Char) (stop : Nat)
  /-- Empty brackets, and the place behind them. -/
  | empty (stop : Nat)
  /-- Nothing that belongs to the link. -/
  | nothing

/-- What follows the brackets of a link. -/
def following (after : List Glyph) : Following :=
  match after with
  | a :: b :: rest =>
    if a.char != '[' then .nothing
    else if b.char = ']' then .empty b.stop
    else
      let chars := (b :: rest).map Glyph.char
      match readLabelKind? chars with
      | some (.definition s, t) =>
        .label s (placeAfter a.stop (chars.length - t.length) (b :: rest))
      | _ => .nothing
  | _ => .nothing

/-- What a definition gives to a label. -/
def Context.target? (ctx : Context) (label : List Char) : Option Target :=
  let key := labelKey label
  (ctx.targets.find? fun e => e.1 == key).map (·.2)

/-- What the brackets of a link or image make of what stands between them. -/
inductive Closing where
  /-- A link or image that ends at a place. -/
  | target (t : Target) (stop : Nat)
  /-- A reference to a footnote. -/
  | footnote (label : List Char)
  /-- Text. Brackets that follow up to a place are no reference of their own. -/
  | text (used : Option Nat)

/-- What a closing bracket makes of an open one. The bracket may be kept from making a reference. -/
def Bracket.closing (ctx : Context) (b : Bracket) (alone : Bool) (span : Span)
    (after : List Glyph) : Closing :=
  match readTarget? (after.map Glyph.char) with
  | some (t, rest) => .target t (placeAfter span.stop (after.length - rest.length) after)
  | none =>
    match following after with
    | .label s stop =>
      match ctx.target? s with
      | some t => .target t stop
      | none => .text (some stop)
    | other =>
      if !alone then .text none
      else
        let between := b.after.takeWhile fun g => g.start < span.start
        match readLabelKind? (between.map Glyph.char ++ [']']) with
        | some (.footnote s, []) =>
          if ctx.footnotes.contains (labelKey s) then .footnote s else .text none
        | some (.definition s, []) =>
          match ctx.target? s, other with
          | some t, .empty stop => .target t stop
          | some t, _ => .target t span.stop
          | none, _ => .text none
        | _ => .text none

/-- Keeps the closing bracket that ends at a place from making a reference of its own. -/
def settle (stop : Nat) (ts : List Token) : List Token :=
  ts.map fun t => match t with
    | .closer alone span after => .closer (alone && span.stop != stop) span after
    | t => t

theorem length_settle (stop : Nat) (ts : List Token) : (settle stop ts).length = ts.length := by
  simp [settle]

set_option linter.unusedVariables false in
/-- Finds the links, code and raw HTML among tokens. What is collected is given from the last to the
first, behind the innermost open bracket. -/
def resolve (ctx : Context) (brackets : List Bracket) (out : List Inline) :
    List Token → List Inline
  | [] => (closeBrackets out brackets).reverse
  | t :: ts =>
    match t with
    | .text gs =>
      let span : Span := ⟨(gs.head?.map Glyph.start).getD 0, stopOf 0 gs⟩
      resolve ctx brackets (textAt (gs.map Glyph.char) span :: out) ts
    | .other s span => resolve ctx brackets (textAt s span :: out) ts
    | .run r => resolve ctx brackets (.run r :: out) ts
    | .lineBreak hard backslash span =>
      let item := if backslash then .slashBreak span
        else .tree (.leaf (if hard then .hardBreak else .softBreak) span)
      resolve ctx brackets (item :: out) ts
    | .ticks count escaped start after =>
      let width := if escaped then count - 1 else count
      match hf : if width = 0 then none else findTicks width ts with
      | none =>
        resolve ctx brackets
          (textAt (List.replicate count '`') ⟨start, start + count⟩ :: out) ts
      | some (stop, rest) =>
        let code := codeText ((after.takeWhile fun g => g.start < stop).map Glyph.char)
        let opening := if escaped then start + 1 else start
        let out := if escaped then textAt ['`'] ⟨start, start + 1⟩ :: out else out
        resolve ctx brackets
          (.tree (.leaf (.code (String.ofList code)) ⟨opening, stop + width⟩) :: out) rest
    | .less span after =>
      match readAngle ctx span after with
      | none => resolve ctx brackets (textAt ['<'] span :: out) ts
      | some found => resolve ctx brackets (found.item :: out) (tokensFrom found.stop ts)
    | .opener isImage span after =>
      resolve ctx (⟨isImage, true, span, after, out⟩ :: brackets) [] ts
    | .closer alone span after =>
      let closer := textAt [']'] span
      match brackets with
      | [] => resolve ctx [] (closer :: out) ts
      | b :: bs =>
        if !b.active then resolve ctx bs (closer :: b.close out) ts
        else match b.closing ctx alone span after with
          | .text none => resolve ctx bs (closer :: b.close out) ts
          | .text (some stop) => resolve ctx bs (closer :: b.close out) (settle stop ts)
          | .footnote label =>
            let mark (start : Nat) : Inline :=
              .tree (.leaf (.footnoteReference (String.ofList label)) ⟨start, span.stop⟩)
            let out :=
              if b.isImage then
                mark (b.span.start + 1) ::
                  textAt ['!'] ⟨b.span.start, b.span.start + 1⟩ :: b.before
              else mark b.span.start :: b.before
            resolve ctx [] (closeBrackets out bs) ts
          | .target t stop =>
            let container : Container :=
              if b.isImage then .image t.address t.title else .link t.address t.title
            let node := .tree
              (.node container ⟨b.span.start, stop⟩ (emphasize [] [] out.reverse))
            resolve ctx (if b.isImage then bs else deactivate bs) (node :: b.before)
              (tokensFrom stop ts)
termination_by ts => ts.length
decreasing_by
  all_goals
    simp only [List.length_cons, length_settle]
    first
      | omega
      | exact Nat.lt_succ_of_le (length_tokensFrom_le _ _)
      | (split at hf
         · simp at hf
         · have := length_findTicks hf; simp only at this; omega)

/-- The trees of a text. -/
def inlineTrees (ctx : Context) (glyphs : List Glyph) : List Tree :=
  emphasize [] [] (resolve ctx [] [] (tokenize ctx.source [] 0 glyphs))

end StaticSite.Markdown

import StaticSite.Markdown.Event
import StaticSite.Markdown.Line
import StaticSite.Markdown.Reference
import StaticSite.Text.Blank
import StaticSite.Text.Punctuation

/-!
# Tokens of text

The text of a paragraph is cut where a character can have a meaning: at runs of `*`, `_` and `~`,
at back quotes, brackets and `<`, at character references and at the ends of lines. What a token
means is found out later, so tokens that start something keep the text that follows them.

The text is given as *glyphs*: characters with their places in the source. The markers of the blocks
around a paragraph are left out, so the places of two neighbours may lie apart. The end of a line is
one glyph, a line feed.
-/

namespace StaticSite.Markdown

open StaticSite.Text

/-- A character of a text with its place in the source. -/
structure Glyph where
  /-- The character. -/
  char : Char
  /-- Where its source starts. -/
  start : Nat
  /-- The place behind its source. -/
  stop : Nat
deriving Repr, Inhabited

/-- A run of one character that can mark emphasis. -/
structure Run where
  /-- The character. -/
  char : Char
  /-- The length of the run as it was written. -/
  length : Nat
  /-- How many of its characters are left. -/
  count : Nat
  /-- Whether it can stand before what is emphasized. -/
  opens : Bool
  /-- Whether it can stand behind what is emphasized. -/
  closes : Bool
  /-- The place of the first character that is left. -/
  start : Nat
deriving Repr

/-- A piece of text. -/
inductive Token where
  /-- Text that stands for itself. -/
  | text (glyphs : List Glyph)
  /-- Text that stands for something else. -/
  | other (s : List Char) (span : Span)
  /-- A run that can mark emphasis. -/
  | run (r : Run)
  /-- Back quotes; a backslash may stand before the first one. -/
  | ticks (count : Nat) (escaped : Bool) (start : Nat) (after : List Glyph)
  /-- A `<`. -/
  | less (span : Span) (after : List Glyph)
  /-- The start of a link or image. -/
  | opener (isImage : Bool) (span : Span) (after : List Glyph)
  /-- The end of a link or image. The text between the brackets may be a label if `alone` is set. -/
  | closer (alone : Bool) (span : Span) (after : List Glyph)
  /-- A line break, kept if `hard`; one that is kept because of a backslash is told apart. -/
  | lineBreak (hard backslash : Bool) (span : Span)

/-- The place behind the token. -/
def Token.stop : Token → Nat
  | .text gs => (gs.getLast?.map Glyph.stop).getD 0
  | .other _ span | .less span _ | .opener _ span _ | .closer _ span _ | .lineBreak _ _ span =>
    span.stop
  | .run r => r.start + r.count
  | .ticks count _ start _ => start + count

/-- The token without what lies before a place. -/
def Token.from (place : Nat) : Token → Token
  | .text gs => .text (gs.dropWhile (·.start < place))
  | .run r =>
    .run { r with count := r.count - (place - r.start), start := max r.start place }
  | t => t

/-- The tokens behind a place. -/
def tokensFrom (place : Nat) (ts : List Token) : List Token :=
  match ts.dropWhile fun t => t.stop ≤ place with
  | [] => []
  | t :: ts => t.from place :: ts

theorem length_tokensFrom_le (place : Nat) (ts : List Token) :
    (tokensFrom place ts).length ≤ ts.length := by
  have h := (List.dropWhile_suffix (l := ts) fun t => t.stop ≤ place).sublist.length_le
  unfold tokensFrom
  split
  · simp
  · rename_i h'
    rw [h'] at h
    simpa using h

/-- Whether a run can stand before what is emphasized, by the characters next to it. -/
def canOpen (c : Char) (count : Nat) (before after : Option Char) : Bool :=
  match before, after with
  | _, none => false
  | none, some a => !isBlank a
  | some b, some a =>
    !isBlank a &&
      ((c == '*' && !isPunctuation a) || (c == '~' && 1 < count) ||
        (c == '~' && b == '~' && !isPunctuation a) || isBlank b || isPunctuation b)

/-- Whether a run can stand behind what is emphasized, by the characters next to it. -/
def canClose (c : Char) (count : Nat) (before after : Option Char) : Bool :=
  match before, after with
  | none, _ => false
  | some b, none => !isBlank b
  | some b, some a =>
    !isBlank b &&
      (((c == '*' || (c == '~' && 1 < count)) && !isPunctuation b) || (c == '~' && b == '~') ||
        isBlank a || isPunctuation a)

/-- The text token of glyphs that are given from the last to the first. -/
def textToken (pending : List Glyph) : List Token :=
  if pending.isEmpty then [] else [.text pending.reverse]

/-- The place behind a list of glyphs, or the given one if there are none. -/
def stopOf (place : Nat) (gs : List Glyph) : Nat := (gs.getLast?.map Glyph.stop).getD place

/-- The longest name of a character reference has fewer characters than this. -/
def referenceLimit : Nat := 40

set_option linter.unusedVariables false in
/-- Cuts a text into tokens. The list `pending` holds the glyphs of the text token that is read,
from the last to the first, and `slashes` counts the backslashes right before the rest. -/
def tokenize (source : Array Char) (pending : List Glyph) (slashes : Nat) :
    List Glyph → List Token
  | [] => textToken (pending.dropWhile fun g => isLineSpace g.char)
  | g :: gs =>
    let apart := (pending.head?.map fun p => p.stop != g.start).getD false
    let read := if apart then textToken pending else []
    let pending := if apart then [] else pending
    let before := if g.start = 0 then none else source[g.start - 1]?
    let single (t : Token) := read ++ textToken pending ++ t :: tokenize source [] 0 gs
    match g.char with
    | '\n' =>
      let next := gs.dropWhile fun h => h.char == ' ' || h.char == '\t'
      if slashes % 2 = 1 then
        read ++ textToken pending.tail ++
          .lineBreak true true ⟨g.start - 1, g.stop⟩ :: tokenize source [] 0 next
      else
        let kept := pending.dropWhile fun p => isLineSpace p.char
        let spaces := pending.length - kept.length
        let hard := 2 ≤ spaces
        read ++ textToken kept ++
          .lineBreak hard false ⟨if hard then g.start - spaces else g.start, g.stop⟩ ::
            tokenize source [] 0 next
    | '\\' =>
      match hg : gs with
      | h :: hs =>
        if h.char = '`' then
          let count := (gs.takeWhile fun t => t.char == '`').length
          let after := gs.drop count
          read ++ textToken pending ++
            .ticks count true h.start after :: tokenize source [] 0 after
        else if isAsciiPunctuation h.char then
          read ++ textToken pending ++
            tokenize source [h] (if h.char = '\\' then slashes + 2 else 0) hs
        else read ++ tokenize source (g :: pending) (slashes + 1) gs
      | [] => read ++ tokenize source (g :: pending) (slashes + 1) gs
    | '`' =>
      let more := (gs.takeWhile fun t => t.char == '`').length
      let after := gs.drop more
      read ++ textToken pending ++
        .ticks (more + 1) false g.start after :: tokenize source [] 0 after
    | '<' =>
      if (gs.head?.map Glyph.char) = some '\\' then read ++ tokenize source (g :: pending) 0 gs
      else single (.less ⟨g.start, g.stop⟩ gs)
    | '!' =>
      match hg : gs with
      | h :: hs =>
        if h.char = '[' then
          read ++ textToken pending ++
            .opener true ⟨g.start, h.stop⟩ hs :: tokenize source [] 0 hs
        else read ++ tokenize source (g :: pending) 0 gs
      | [] => read ++ tokenize source (g :: pending) 0 gs
    | '[' => single (.opener false ⟨g.start, g.stop⟩ gs)
    | ']' => single (.closer true ⟨g.start, g.stop⟩ gs)
    | '\x00' => single (.other ['\uFFFD'] ⟨g.start, g.stop⟩)
    | '&' =>
      let near := (gs.take referenceLimit).map Glyph.char
      match readReference? near with
      | some (s, rest) =>
        let length := near.length - rest.length
        read ++ textToken pending ++
          .other s ⟨g.start, stopOf g.stop (gs.take length)⟩ ::
            tokenize source [] 0 (gs.drop length)
      | none => read ++ tokenize source (g :: pending) 0 gs
    | c =>
      if c = '*' ∨ c = '_' ∨ c = '~' then
        let more := (gs.takeWhile fun t => t.char == c).length
        let after := gs.drop more
        let count := more + 1
        let next := after.head?.map Glyph.char
        let opens := canOpen c count before next
        let closes := canClose c count before next
        if (opens || closes) && (c != '~' || count ≤ 2) then
          read ++ textToken pending ++
            .run ⟨c, count, count, opens, closes, g.start⟩ :: tokenize source [] 0 after
        else read ++ tokenize source ((g :: gs.take more).reverse ++ pending) 0 after
      else read ++ tokenize source (g :: pending) 0 gs
termination_by gs => gs.length
decreasing_by
  all_goals
    simp only [List.length_cons, List.length_drop]
    first
      | omega
      | exact Nat.lt_succ_of_le (List.dropWhile_suffix _).sublist.length_le
      | (simp only [hg, List.length_cons]; omega)

end StaticSite.Markdown

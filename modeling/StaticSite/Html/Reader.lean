import StaticSite.Html.Growth
import StaticSite.Html.Token

/-!
# Reading documents

Reading never gives up on markup that browsers accept: a `<` that cannot open markup is text,
elements left open are closed where their parent ends, and the content of `script` and `style` is
taken as it stands up to the end tag.

The source is read in *runs*. A run starts at the beginning of the source, behind a `<` that is
text, and behind the end tag of a `script` or `style`. A byte order mark at the start of a run is
dropped, and positions in such a run do not count it: they lie three bytes too early. The positions
decide where the next run starts and where the content of a `script` is cut, and both look at the
source at that position, so a run with a byte order mark may read some bytes twice.
-/

namespace StaticSite.Html

open StaticSite.Text

/-- Why a source cannot be read. -/
inductive ParseError where
  /-- Markup is malformed. -/
  | malformed (position : Nat) (what : Malformed)
  /-- An end tag closes no open element; the position is that behind the tag. -/
  | unmatchedEnd (name : String) (position : Nat)
  /-- The position of the content of a `script` or `style` lies inside a character. -/
  | insideCharacter (position : Nat)
deriving DecidableEq, Repr

/-- The message of the error. -/
def ParseError.message : ParseError → String
  | .malformed position what => s!"malformed markup at byte {position}: {what.message}"
  | .unmatchedEnd name position =>
    "unexpected `</" ++ name ++ s!">` at byte {position} with no matching open element"
  | .insideCharacter position => s!"byte index {position} is not a char boundary"

/-- The byte order mark. -/
def byteOrderMark : Char := '\uFEFF'

/-- A place in the source. -/
structure Reader (source : List Char) where
  /-- The position of the place as it is counted in this run. -/
  position : Nat
  /-- Whether the run began with a byte order mark, which the position leaves out. -/
  lagging : Bool
  /-- The text that is still to be read. -/
  rest : List Char
  /-- No text is counted twice. -/
  fits : position + byteSize rest ≤ byteSize source

namespace Reader

variable {source : List Char}

/-- Starts a run at the given position, where `text` stands. -/
def startAt (position : Nat) (text : List Char) (h : position + byteSize text ≤ byteSize source) :
    Reader source :=
  match text with
  | c :: s =>
    if c = byteOrderMark then ⟨position, true, s, by simp at h; omega⟩
    else ⟨position, false, c :: s, h⟩
  | [] => ⟨position, false, [], h⟩

@[simp] theorem startAt_position {position : Nat} {text : List Char}
    (h : position + byteSize text ≤ byteSize source) :
    (startAt position text h).position = position := by
  cases text with
  | nil => rfl
  | cons c s => simp only [startAt]; split <;> rfl

/-- The start of the source. -/
def start (source : List Char) : Reader source := startAt 0 source (by simp)

/-- The source from the position on, unless that lies inside a character. -/
def here? (r : Reader source) : Option (List Char) :=
  if r.lagging then dropBytes r.position source else some r.rest

end Reader

theorem byteSize_of_dropBytes {n : Nat} {s t : List Char} (h : dropBytes n s = some t) :
    n + byteSize t = byteSize s := by
  induction s generalizing n with
  | nil => cases n <;> simp_all [dropBytes]
  | cons c s ih =>
    cases n with
    | zero => simp_all [dropBytes]
    | succ n =>
      unfold dropBytes at h
      split at h
      · have := ih h; simp; omega
      · simp at h

theorem Reader.fits_here {source : List Char} (r : Reader source) {t : List Char}
    (h : r.here? = some t) : r.position + byteSize t ≤ byteSize source := by
  unfold Reader.here? at h
  split at h
  · exact Nat.le_of_eq (byteSize_of_dropBytes h)
  · cases h; exact r.fits

/-- Whether the character behind a `<` opens markup. -/
def opensMarkup (c : Char) : Bool := c.isAlpha || c == '/' || c == '!' || c == '?'

/-- Whether a text starts with `</` and the name, in any case of ASCII letters. -/
def startsEndTag (name : List Char) : List Char → Bool
  | '<' :: '/' :: s => (lower name).isPrefixOf (lower (s.take name.length))
  | _ => false

/-- Splits the text before the first end tag of the name. All of it is content if there is none. -/
def splitContent (name : List Char) : List Char → List Char × List Char
  | [] => ([], [])
  | c :: s =>
    if startsEndTag name (c :: s) then ([], c :: s)
    else let p := splitContent name s; (c :: p.1, p.2)

theorem splitContent_append (name s : List Char) :
    (splitContent name s).1 ++ (splitContent name s).2 = s := by
  induction s with
  | nil => rfl
  | cons c s ih => simp only [splitContent]; split <;> simp [ih]

/-- The document after a step, and the place where reading goes on, which is further on. -/
abbrev Step {source : List Char} (r : Reader source) :=
  Growth × Option { r' : Reader source // r.position < r'.position }

namespace Reader

variable {source : List Char}

/-- Goes on behind the source of a token. -/
def advance (r : Reader source) (lexeme rest : List Char) (h : lexeme ++ rest = r.rest) :
    Reader source :=
  ⟨r.position + byteSize lexeme, r.lagging, rest, by
    have := r.fits; simp only [← h, byteSize_append] at this; omega⟩

theorem byteSize_pos {s : List Char} (h : s ≠ []) : 0 < byteSize s := by
  cases s with
  | nil => exact absurd rfl h
  | cons c s => have := c.utf8Size_pos; simp; omega

/-- Reads the content of a raw text element up to its end tag, and goes on behind that. The text
behind the start tag is given. -/
def readRaw (r : Reader source) (tag : Tag) (text : List Char) (g : Growth)
    (h : r.position + byteSize text ≤ byteSize source) :
    Growth × { r' : Reader source // r.position ≤ r'.position } :=
  let content := splitContent tag.name.toList text
  let ending := splitAfter '>' content.2
  let children := if content.1.isEmpty then [] else [Node.text (String.ofList content.1)]
  (g.push (.element tag children),
    ⟨startAt (r.position + byteSize content.1 + byteSize ending.1) ending.2 (by
        have h₁ : byteSize content.1 + byteSize content.2 = byteSize text := by
          rw [← byteSize_append, splitContent_append]
        have h₂ : byteSize ending.1 + byteSize ending.2 = byteSize content.2 := by
          rw [← byteSize_append, splitAfter_append]
        omega),
      by simp only [startAt_position]; omega⟩)

/-- Adds a token to the document and goes on behind it. -/
def take (r : Reader source) (g : Growth) (token : Token) (r' : Reader source)
    (h : r.position < r'.position) : Except ParseError (Step r) :=
  match token with
  | .text s => .ok (g.pushText (String.ofList s), some ⟨r', h⟩)
  | .leaf n => .ok (g.push n, some ⟨r', h⟩)
  | .close name =>
    if isVoid name then .ok (g, some ⟨r', h⟩)
    else match g.closeTag? name with
      | none => .error (.unmatchedEnd name r'.position)
      | some g => .ok (g, some ⟨r', h⟩)
  | .start tag =>
    if tag.selfClosing || isVoid tag.name then .ok (g.push (.element tag []), some ⟨r', h⟩)
    else if isRawText tag.name then
      match ht : r'.here? with
      | none => .error (.insideCharacter r'.position)
      | some text =>
        let raw := r'.readRaw tag text g (r'.fits_here ht)
        .ok (raw.1, some ⟨raw.2.1, Nat.lt_of_lt_of_le h raw.2.2⟩)
    else .ok (g.openTag tag, some ⟨r', h⟩)

/-- Reads one token, or a `<` that is text. -/
def step (r : Reader source) (g : Growth) : Except ParseError (Step r) :=
  match hh : r.here? with
  | some ('<' :: after) =>
    if (after.head?.map opensMarkup).getD false then readToken
    else
      .ok (g.pushText "<", some ⟨startAt (r.position + 1) after (by
          have h := r.fits_here hh
          have : Char.utf8Size '<' = 1 := by decide
          simp only [byteSize_cons, this] at h; omega),
        by simp⟩)
  | _ => readToken
where
  /-- Reads one token. -/
  readToken : Except ParseError (Step r) :=
    match hr : r.rest with
    | [] => .ok (g, none)
    | c :: s =>
      match hs : scan c s with
      | .error f => .error (.malformed (r.position + f.offset) f.what)
      | .ok t =>
        r.take g t.token (r.advance t.source t.rest (by rw [scan_eq hs, hr]))
          (Nat.lt_add_of_pos_right (byteSize_pos (scan_source_ne_nil hs)))

/-- Reads to the end of the source. -/
def read (r : Reader source) (g : Growth) : Except ParseError Forest :=
  match r.step g with
  | .error e => .error e
  | .ok (g, none) => .ok g.finish
  | .ok (g, some ⟨r', _⟩) => r'.read g
termination_by byteSize source - r.position
decreasing_by have := r'.fits; omega

end Reader

/-- Reads a document. -/
def parse (source : String) : Except ParseError Forest :=
  (Reader.start source.toList).read {}

end StaticSite.Html

import StaticSite.Text.Blank
import StaticSite.Yaml.Value

/-!
# Front matter

A document may start with a block of metadata between two marked lines: the first line is `---`, and
the block ends at the next line that is `---` or `...`. White space at the end of these lines does
not matter. `split` takes a text apart into the block and the body; the block is a YAML mapping, of
which the entries with scalar keys and values are kept as texts.
-/

namespace StaticSite

open StaticSite.Text

/-- Metadata: texts by keys, in the order of the keys, each of which occurs once. -/
abbrev Metadata := List (String × String)

namespace Metadata

/-- Sets the value of a key. -/
def insert (key value : String) : Metadata → Metadata
  | [] => [(key, value)]
  | e :: es =>
    if key < e.1 then (key, value) :: e :: es
    else if key = e.1 then (key, value) :: es
    else e :: insert key value es

/-- The metadata that a list of entries describes, where a later entry replaces an earlier one. -/
def ofEntries (es : List (String × String)) : Metadata :=
  es.foldl (fun m e => insert e.1 e.2 m) []

end Metadata

namespace FrontMatter

/-! ## Splitting -/

/-- The lines of a text, each with the line feed that ends it. The last line has none, and may be
empty. -/
def lines : List Char → List (List Char)
  | [] => [[]]
  | c :: s =>
    if c = '\n' then [c] :: lines s
    else
      match lines s with
      | [] => [[c]]
      | l :: ls => (c :: l) :: ls

/-- The text without a byte-order mark at its start. -/
def dropMark : List Char → List Char
  | '\ufeff' :: s => s
  | s => s

/-- Whether a block may start behind the line. -/
def isOpening (line : List Char) : Bool := trimEnd line == ['-', '-', '-']

/-- Whether the line ends a block. -/
def isClosing (line : List Char) : Bool :=
  trimEnd line == ['-', '-', '-'] || trimEnd line == ['.', '.', '.']

/-- The block of metadata and the body. Without a line that opens a block, or one that closes it,
the whole text is the body. -/
def split (raw : List Char) : Option (List Char) × List Char :=
  match lines (dropMark raw) with
  | [] => (none, raw)
  | first :: rest =>
    if isOpening first then
      match rest.dropWhile (!isClosing ·) with
      | [] => (none, raw)
      | _ :: body => (some (rest.takeWhile (!isClosing ·)).flatten, body.flatten)
    else (none, raw)

theorem lines_ne_nil (s : List Char) : lines s ≠ [] := by
  cases s with
  | nil => simp [lines]
  | cons c s =>
    unfold lines
    split
    · simp
    · split <;> simp

@[simp] theorem flatten_lines (s : List Char) : (lines s).flatten = s := by
  induction s with
  | nil => rfl
  | cons c s ih =>
    unfold lines
    split
    · simp [ih]
    · split <;> simp_all

/-! ## Reading -/

/-- Why front matter is refused. -/
inductive Error where
  /-- The block is not well formed. -/
  | malformed
  /-- The block is not a mapping. -/
  | notMapping
deriving DecidableEq, Repr

/-- What is said about an error. -/
def Error.message : Error → String
  | malformed => "front matter is not valid yaml"
  | notMapping => "front matter must be a key/value mapping"

/-- The text of a scalar; sequences and mappings have none. -/
def scalarText? : Yaml.Value → Option String
  | .null => some ""
  | .bool b => some (if b then "true" else "false")
  | .number n => some n.toText
  | .text s => some s
  | .tagged _ v => scalarText? v
  | .sequence _ => none
  | .mapping _ => none

/-- The texts of an entry. -/
def entryText? (e : Yaml.Value × Yaml.Value) : Option (String × String) := do
  some (← scalarText? e.1, ← scalarText? e.2)

/-- Reads a block of metadata. A block that stands for nothing has no entries. -/
def parse (block : List Char) : Except Error Metadata :=
  if block.all isBlank then .ok []
  else
    match Yaml.Value.parse? block with
    | none => .error .malformed
    | some (.mapping es) => .ok (.ofEntries (es.filterMap entryText?))
    | some .null => .ok []
    | some _ => .error .notMapping

/-- Takes a text apart into its metadata and its body. -/
def read (raw : List Char) : Except Error (Metadata × List Char) :=
  let (block, body) := split raw
  match block with
  | none => .ok ([], body)
  | some block => (·, body) <$> parse block

end FrontMatter

end StaticSite

import StaticSite.Toml.Number
import StaticSite.Toml.Text

/-!
# TOML

A text is a list of headers and assignments. A header opens a table, and the assignments below it
set keys of that table; dotted keys reach into tables inside it. No key is set twice, no table is
opened twice, and a table written between braces is closed. Values other than strings, truth values,
arrays and tables are checked but not kept.
-/

namespace StaticSite.Toml

/-- How a table came to be. -/
inductive Form where
  /-- Opened by a header; also the table of the whole text. -/
  | header
  /-- On the way to a table that a header opened. -/
  | implicit
  /-- On the way to a key that was set by a dotted key. -/
  | dotted
  /-- Written between braces. -/
  | inline
deriving DecidableEq, Repr

/-- A value. -/
inductive Value where
  /-- A string. -/
  | string (s : String)
  /-- A truth value. -/
  | boolean (b : Bool)
  /-- A number, a date or a time. -/
  | number
  /-- An array. -/
  | array (items : List Value)
  /-- A table. -/
  | table (form : Form) (entries : List (String × Value))
  /-- The tables of an array that headers opened, in order. -/
  | tables (items : List Value)
deriving Repr, Inhabited

/-- The entries of a table. -/
abbrev Entries := List (String × Value)

/-- Sets the value of a key. -/
def Entries.set (key : String) (v : Value) : Entries → Entries
  | [] => [(key, v)]
  | e :: es => if e.1 = key then (key, v) :: es else e :: set key v es

namespace Value

/-- A table without entries. -/
def emptyTable (form : Form) : Value := .table form []

/-- Changes the table that is reached by keys, making tables of the form `made` where there are
none. Tables between braces are closed, and so are tables that a header opened unless `reopen`. -/
def change (made : Form) (reopen : Bool) (f : Form → Entries → Option Value) :
    List String → Value → Option Value
  | [], .table form es => f form es
  | key :: keys, .table form es => do
    let inside ←
      match es.lookup key with
      | none => change made reopen f keys (emptyTable made)
      | some (.table .inline _) => none
      | some (.table .header inner) =>
        if reopen then change made reopen f keys (.table .header inner) else none
      | some (.table other inner) => change made reopen f keys (.table other inner)
      | some (.tables ts) => do
        let last ← ts.getLast?
        let last ← change made reopen f keys last
        some (.tables (ts.dropLast ++ [last]))
      | some _ => none
    some (.table form (Entries.set key inside es))
  | _, _ => none

/-- Changes the table that a header names. -/
def changeNamed (f : Form → Entries → Option Value) (keys : List String) (v : Value) :
    Option Value :=
  v.change .implicit true f keys

/-- Sets a key, which must be new. A dotted key ends in a table that dotted keys made. -/
def insert (root : Value) (keys : List String) (key : String) (v : Value) : Option Value :=
  root.change .dotted false (fun form es =>
    if (form == .dotted) == keys.isEmpty || (es.lookup key).isSome then none
    else some (.table form (es ++ [(key, v)]))) keys

/-- Opens the table with the last of the keys. -/
def openTable (keys : List String) (key : String) (root : Value) : Option Value :=
  root.changeNamed (fun form es =>
    match es.lookup key with
    | none => some (.table form (es ++ [(key, emptyTable .header)]))
    | some (.table .implicit inner) =>
      some (.table form (Entries.set key (.table .header inner) es))
    | some _ => none) keys

/-- Adds a table to an array of tables. -/
def addTable (keys : List String) (key : String) (root : Value) : Option Value :=
  root.changeNamed (fun form es =>
    match es.lookup key with
    | none => some (.table form (es ++ [(key, .tables [emptyTable .header])]))
    | some (.tables ts) =>
      some (.table form (Entries.set key (.tables (ts ++ [emptyTable .header])) es))
    | some _ => none) keys

/-! ## Reading -/

/-- A character of a key without quotes. -/
def isKeyChar (c : Char) : Bool := c.isAlphanum || c == '_' || c == '-'

/-- Reads a part of a key. -/
def keyPart? (s : List Char) : Option (String × List Char) :=
  match keyString? s with
  | some (key, rest) => some (String.ofList key, rest)
  | none =>
    let key := s.takeWhile isKeyChar
    if key.isEmpty then none else some (String.ofList key, s.dropWhile isKeyChar)

/-- The number of levels to which keys and values may not be nested. -/
def nestingLimit : Nat := 80

/-- Reads a key of at most `bound` parts, with white space around each. -/
def keyParts? : (bound : Nat) → List Char → Option (List String × List Char)
  | 0, _ => none
  | bound + 1, s => do
    let (part, s) ← keyPart? (skipGap s)
    match skipGap s with
    | '.' :: s =>
      let (parts, s) ← keyParts? bound s
      some (part :: parts, s)
    | s => some ([part], s)

/-- Reads a key: the parts before the last, and the last. -/
def key? (s : List Char) : Option ((List String × String) × List Char) := do
  let (parts, s) ← keyParts? (nestingLimit - 1) s
  let last ← parts.getLast?
  some ((parts.dropLast, last), s)

/-- Reads a truth value, a number, a date or a time. -/
def word? (s : List Char) : Option (Value × List Char) :=
  match s with
  | 't' :: 'r' :: 'u' :: 'e' :: s => some (.boolean true, s)
  | 'f' :: 'a' :: 'l' :: 's' :: 'e' :: s => some (.boolean false, s)
  | s => (.number, ·) <$> number? s

mutual

/-- Reads a value that is nested less than `depth` levels. -/
def read? (depth : Nat) : (bound : Nat) → List Char → Option (Value × List Char)
  | 0, _ => none
  | bound + 1, s =>
    match s with
    | '[' :: s =>
      if depth ≤ 1 then none
      else do
        let (items, s) ← items? (depth - 1) bound s
        some (.array items, s)
    | '\x7b' :: s =>
      if depth ≤ 1 then none
      else
        match skipGap s with
        | '\x7d' :: s => some (emptyTable .inline, s)
        | s => entries? (depth - 1) (emptyTable .inline) bound s
    | s =>
      match string? s with
      | some (text, s) => some (.string (String.ofList text), s)
      | none => word? s

/-- Reads the items of an array behind its opening bracket or a comma. -/
def items? (depth : Nat) : (bound : Nat) → List Char → Option (List Value × List Char)
  | 0, _ => none
  | bound + 1, s =>
    match skipBlank s with
    | ']' :: s => some ([], s)
    | s => do
      let (item, s) ← read? depth bound s
      match skipBlank s with
      | ',' :: s =>
        let (items, s) ← items? depth bound s
        some (item :: items, s)
      | ']' :: s => some ([item], s)
      | _ => none

/-- Reads the entries of a table between braces. -/
def entries? (depth : Nat) (t : Value) : (bound : Nat) → List Char → Option (Value × List Char)
  | 0, _ => none
  | bound + 1, s => do
    let ((keys, key), s) ← key? s
    let (v, s) ← read? depth bound (skipGap (← pass? '=' s))
    let t ← t.insert keys key v
    match skipGap s with
    | ',' :: s => entries? depth t bound s
    | '\x7d' :: s => some (t, s)
    | _ => none

end

/-- What was read of a text. -/
structure Reading where
  /-- The table of the whole text. -/
  root : Value := emptyTable .header
  /-- The keys of the table that the last header opened. -/
  place : List String := []

/-- Reads the rest of a header. -/
def header? (r : Reading) (s : List Char) : Option (Reading × List Char) :=
  match s with
  | '[' :: s => do
    let ((keys, key), s) ← key? s
    let root ← r.root.addTable keys key
    some ({ root, place := keys ++ [key] }, ← endLine? (← pass? ']' (← pass? ']' s)))
  | s => do
    let ((keys, key), s) ← key? s
    let root ← r.root.openTable keys key
    some ({ root, place := keys ++ [key] }, ← endLine? (← pass? ']' s))

/-- Reads an assignment. -/
def assignment? (r : Reading) (s : List Char) : Option (Reading × List Char) := do
  let ((keys, key), s) ← key? s
  let (v, s) ← read? nestingLimit (2 * s.length + 2) (skipGap (← pass? '=' s))
  let root ← r.root.changeNamed (fun form es => (Value.table form es).insert keys key v) r.place
  some ({ r with root }, ← endLine? s)

/-- Reads a line. -/
def line? (r : Reading) (s : List Char) : Option (Reading × List Char) :=
  match s with
  | '[' :: s => header? r s
  | c :: s =>
    if c = '#' ∨ c = '\n' ∨ c = '\r' then (r, ·) <$> endLine? (c :: s) else assignment? r (c :: s)
  | [] => some (r, [])

/-- Reads the remaining lines. -/
def lines? (r : Reading) (s : List Char) : Option Value :=
  match skipGap s with
  | [] => some r.root
  | t => do
    let (r, rest) ← line? r t
    if rest.length < s.length then lines? r rest else none
termination_by s.length

/-- Reads a text, which may start with a byte-order mark. -/
def parse? (s : List Char) : Option Value :=
  match s with
  | '\ufeff' :: s => lines? {} s
  | s => lines? {} s

end Value

end StaticSite.Toml

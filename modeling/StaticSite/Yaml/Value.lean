import StaticSite.Decimal.Shortest
import StaticSite.Yaml.Node

/-!
# Values

What the nodes of a document stand for. A plain scalar without a tag is nothing, a truth value or a
number if it is spelled like one, and else a text. A mapping has no two equal keys. A reference
stands for the value of its node; nodes are nested at most 128 deep, and documents in which
references multiply too much are refused.
-/

namespace StaticSite.Yaml

/-- A number. -/
inductive Number where
  /-- An integer of at most 64 bits. -/
  | int (n : Int)
  /-- A floating-point number. -/
  | float (x : Float)
deriving Repr

/-- A value. -/
inductive Value where
  /-- Nothing. -/
  | null
  /-- A truth value. -/
  | bool (b : Bool)
  /-- A number. -/
  | number (n : Number)
  /-- A text. -/
  | text (s : String)
  /-- A sequence. -/
  | sequence (items : List Value)
  /-- A mapping, in the order of the text. -/
  | mapping (entries : List (Value × Value))
  /-- A value with a tag. -/
  | tagged (tag : String) (v : Value)
deriving Repr, Inhabited

/-! ## Numbers -/

/-- The value of a digit in a base of at most 16. -/
def digitValue? (base : Nat) (c : Char) : Option Nat :=
  (Text.hexValue? c).filter (· < base)

/-- The number that digits in a base stand for. -/
def digits? (base : Nat) (s : List Char) : Option Nat :=
  if s.isEmpty then none
  else s.foldlM (fun n c => return base * n + (← digitValue? base c)) 0

/-- The base that is written before the digits with the remaining text, decimal otherwise. -/
def splitBase : List Char → Nat × List Char
  | '0' :: 'x' :: s => (16, s)
  | '0' :: 'o' :: s => (8, s)
  | '0' :: 'b' :: s => (2, s)
  | s => (10, s)

/-- The sign with the text behind it. -/
def splitSign : List Char → Bool × List Char
  | '-' :: s => (true, s)
  | '+' :: s => (false, s)
  | s => (false, s)

/-- Whether a text is digits behind a leading zero, which is no number. -/
def isZeroPadded (s : List Char) : Bool :=
  match (splitSign s).2 with
  | '0' :: c :: t => (c :: t).all Char.isDigit
  | _ => false

/-- Reads an integer. -/
def int? (s : List Char) : Option Int := do
  if isZeroPadded s then none
  let (negative, rest) := splitSign s
  let (base, digits) := splitBase rest
  let n ← digits? base digits
  some (if negative then -(n : Int) else n)

/-- Splits digits from the front of a text. -/
def splitDigits (s : List Char) : List Char × List Char :=
  (s.takeWhile Char.isDigit, s.dropWhile Char.isDigit)

/-- Reads the exponent of a decimal; without one it is zero. -/
def exponent? : List Char → Option Int
  | [] => some 0
  | c :: s =>
    if c = 'e' ∨ c = 'E' then do
      let (negative, digits) := splitSign s
      if !digits.all Char.isDigit then none
      let n ← digits? 10 digits
      some (if negative then -(n : Int) else n)
    else none

/-- Reads a decimal without sign. -/
def decimal? (s : List Char) : Option Float := do
  let (whole, rest) := splitDigits s
  let (fraction, rest) :=
    match rest with
    | '.' :: rest => splitDigits rest
    | _ => ([], rest)
  let n ← digits? 10 (whole ++ fraction)
  let e ← exponent? rest
  some (Decimal.toFloat n (e - fraction.length))

/-- Reads a floating-point number; one that is too large is none. -/
def float? (s : List Char) : Option Float :=
  let (negative, rest) := splitSign s
  if s = ".nan".toList ∨ s = ".NaN".toList ∨ s = ".NAN".toList then some (0.0 / 0.0)
  else if rest = ".inf".toList ∨ rest = ".Inf".toList ∨ rest = ".INF".toList then
    some (if negative then -1.0 / 0.0 else 1.0 / 0.0)
  else do
    let x ← decimal? rest
    if x.isInf then none else some (if negative then -x else x)

/-- Equality of numbers as keys: not-a-number equals itself. -/
def Number.same : Number → Number → Bool
  | .int a, .int b => a == b
  | .float a, .float b => a == b || (a.isNaN && b.isNaN)
  | _, _ => false

/-- How a decimal is written: positionally while the point is at most 16 digits behind the first
digit, or at most 5 zeros before it, and with an exponent otherwise. -/
def decimalText (digits : List Char) (exponent : Int) : List Char :=
  let size : Int := digits.length + exponent
  if 0 ≤ exponent ∧ size ≤ 16 then
    digits ++ List.replicate exponent.toNat '0' ++ ['.', '0']
  else if 0 < size ∧ size ≤ 16 then
    digits.take size.toNat ++ '.' :: digits.drop size.toNat
  else if -5 < size ∧ size ≤ 0 then
    '0' :: '.' :: List.replicate (-size).toNat '0' ++ digits
  else
    let tail := if digits.length = 1 then [] else '.' :: digits.drop 1
    digits.take 1 ++ tail ++ 'e' :: (toString (size - 1)).toList

/-- The text of a floating-point number. -/
def floatText (x : Float) : List Char :=
  let sign := if x.toBits < 0x8000000000000000 then [] else ['-']
  if x.isNaN then ".nan".toList
  else if x.isInf then sign ++ ".inf".toList
  else if x == 0.0 then sign ++ ['0', '.', '0']
  else
    let (digits, exponent) := (Decimal.Binary.ofFloat x).shortest
    sign ++ decimalText (Nat.toDigits 10 digits) exponent

/-- The text of a number. -/
def Number.toText : Number → String
  | .int n => toString n
  | .float x => String.ofList (floatText x)

namespace Value

/-! ## Scalars -/

/-- Whether a text spells nothing. -/
def isNull (s : String) : Bool := ["null", "Null", "NULL", "~"].contains s

/-- Reads a truth value. -/
def bool? (s : String) : Option Bool :=
  if ["true", "True", "TRUE"].contains s then some true
  else if ["false", "False", "FALSE"].contains s then some false
  else none

/-- The integer of at most 64 bits; a longer one is none, and one of more than 128 bits is no
integer. -/
def ofInt (n : Int) : Option (Option Value) :=
  if -Nat.pow 2 63 ≤ n ∧ n < Nat.pow 2 64 then some (some (.number (.int n)))
  else if -Nat.pow 2 127 ≤ n ∧ n < Nat.pow 2 128 then some none
  else none

/-- What an integer stands for, if the text spells one. -/
def int? (s : String) : Option (Option Value) := Yaml.int? s.toList >>= ofInt

/-- What a plain scalar without a tag stands for. -/
def ofPlain (s : String) : Option Value :=
  if s.isEmpty || isNull s then some .null
  else
    match bool? s with
    | some b => some (.bool b)
    | none =>
      match int? s with
      | some v => v
      | none =>
        match if isZeroPadded s.toList then none else float? s.toList with
        | some x => some (.number (.float x))
        | none => some (.text s)

/-- What a scalar with one of the tags of the core types stands for. -/
def ofCore (type s : String) : Option Value :=
  match type with
  | "bool" => .bool <$> bool? s
  | "int" => (int? s).join
  | "float" => (fun x => .number (.float x)) <$> float? s.toList
  | "null" => if isNull s then some .null else none
  | _ => some (.text s)

/-- The name behind the beginning that the tags of the core types have in common. -/
def coreType (tag : String) : String :=
  let beginning := "tag:yaml.org,2002:".toList
  if beginning.isPrefixOf tag.toList then String.ofList (tag.toList.drop beginning.length) else ""

/-- What a scalar stands for; the tag `t` is none that wraps a value. -/
def ofScalar (t : Option String) (s : String) (plain : Bool) : Option Value :=
  match t with
  | some t => ofCore (coreType t) s
  | none => if plain then ofPlain s else some (.text s)

/-! ## Nodes -/

/-- The tag that wraps a value, which is one that starts with an exclamation mark; it must not be
empty. -/
def wrapper? (l : Label) : Option String :=
  match l.tag.map String.toList with
  | some ('!' :: name) => some (String.ofList name)
  | _ => none

/-- Equality of values as keys. -/
def same : Value → Value → Bool
  | .null, .null => true
  | .bool a, .bool b => a == b
  | .number a, .number b => a.same b
  | .text a, .text b => a == b
  | .sequence [], .sequence [] => true
  | .sequence (a :: as), .sequence (b :: bs) => same a b && same (.sequence as) (.sequence bs)
  | .mapping es, .mapping fs =>
    es.length == fs.length &&
      es.attach.all fun e => fs.any fun f => same e.1.1 f.1 && same e.1.2 f.2
  | .tagged t a, .tagged u b => t == u && same a b
  | _, _ => false
termination_by a => sizeOf a
decreasing_by
  all_goals simp_wf
  all_goals first
    | omega
    | (have h := List.sizeOf_lt_of_mem e.2
       obtain ⟨⟨k, v⟩, he⟩ := e
       simp at h ⊢
       omega)

/-- Counts the places where a reference was followed. -/
abbrev Follow := StateT Nat Option

/-- The nodes that have names, and how often references may be followed. -/
structure Anchors where
  /-- The nodes with their numbers, the last one first. -/
  nodes : List (Nat × Node)
  /-- The number of times that a reference may be followed. -/
  limit : Nat

/-- The node that a reference stands for. -/
def Anchors.follow (as : Anchors) (target : Nat) : Follow Node := do
  modify (· + 1)
  if as.limit < (← get) then failure
  match as.nodes.lookup target with
  | some n => return n
  | none => failure

/-- Wraps a value in the tag of its node, if it has one that wraps. -/
def wrap (tag : Option String) (v : Value) : Follow Value :=
  match tag with
  | none => return v
  | some t => if t.isEmpty then failure else return .tagged t v

/-- Reads entries whose keys and values are read by `key` and `value`, behind the entries `before`.
-/
def entries (key value : Node → Follow Value) (before : List (Value × Value)) :
    List (Node × Node) → Follow (List (Value × Value))
  | [] => return before.reverse
  | e :: es => do
    let k ← key e.1
    if before.any (·.1.same k) then failure
    let v ← value e.2
    entries key value ((k, v) :: before) es

/-- What a node stands for, where `depth` more collections may be nested. If `wrapped`, a tag was
read before, and the tag of the node itself is passed over. -/
def ofNode (as : Anchors) (depth : Nat) (wrapped : Bool) (n : Node) : Follow Value := do
  let (n, wrapped) ←
    match n with
    | .alias target => (·, false) <$> as.follow target
    | n => pure (n, wrapped)
  let found (l : Label) := if wrapped then none else wrapper? l
  match n, depth with
  | .scalar l s plain, _ =>
    let tag := found l
    let rest := if wrapped || tag.isSome then none else l.tag
    let v ← StateT.lift (ofScalar rest s plain)
    wrap tag v
  | .sequence l items, depth + 1 =>
    let vs ← items.mapM (ofNode as depth false)
    wrap (found l) (.sequence vs)
  | .mapping l es, depth + 1 =>
    let inside := wrapped || (found l).isSome
    let es ← entries (ofNode as depth inside) (ofNode as depth false) [] es
    wrap (found l) (.mapping es)
  | _, _ => failure

mutual

/-- The number of marks and scalars of a node. -/
def weight : Node → Nat
  | .alias _ => 1
  | .scalar .. => 1
  | .sequence _ items => 2 + itemsWeight items
  | .mapping _ entries => 2 + entriesWeight entries

/-- The number of marks and scalars of a list of nodes. -/
def itemsWeight : List Node → Nat
  | [] => 0
  | n :: ns => weight n + itemsWeight ns

/-- The number of marks and scalars of a list of entries. -/
def entriesWeight : List (Node × Node) → Nat
  | [] => 0
  | (k, v) :: es => weight k + weight v + entriesWeight es

end

/-- Reads a text with at most one document; it stands for nothing if it has none. -/
def parse? (s : List Char) : Option Value := do
  let tokens ← tokens? s
  match ← Node.ofTokens? tokens with
  | none => some .null
  | some root =>
    let as := { nodes := root.anchored.reverse, limit := 100 * weight root }
    (ofNode as 128 false root).run' 0

end Value

end StaticSite.Yaml

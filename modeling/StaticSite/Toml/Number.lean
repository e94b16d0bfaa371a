/-!
# Numbers and times of TOML

Whether a word is a number, a date or a time.
-/

namespace StaticSite.Toml

/-- Whether a text is digits, with single underscores between them. -/
def isDigits (isDigit : Char → Bool) : List Char → Bool
  | [] => false
  | [c] => isDigit c
  | c :: '_' :: s => isDigit c && isDigits isDigit s
  | c :: s => isDigit c && isDigits isDigit s

/-- The text without a sign. -/
def dropSign : List Char → List Char
  | '+' :: s => s
  | '-' :: s => s
  | s => s

/-- Whether a text is a decimal integer without sign. -/
def isDecimal : List Char → Bool
  | '0' :: s => s.isEmpty
  | s => isDigits Char.isDigit s

/-- The number that digits in a base stand for. -/
def digitsValue (base : Nat) (s : List Char) : Nat :=
  (s.filter (· != '_')).foldl (fun n c =>
    base * n + if c.isDigit then c.toNat - '0'.toNat else c.toLower.toNat - 'a'.toNat + 10) 0

/-- A hexadecimal digit. -/
def isHexDigit (c : Char) : Bool := c.isDigit || ('a' ≤ c.toLower && c.toLower ≤ 'f')

/-- Whether a text is an integer of 64 bits. -/
def isInteger : List Char → Bool
  | '0' :: 'x' :: s => isDigits isHexDigit s && digitsValue 16 s < Nat.pow 2 63
  | '0' :: 'o' :: s => isDigits (fun c => '0' ≤ c && c ≤ '7') s && digitsValue 8 s < Nat.pow 2 63
  | '0' :: 'b' :: s => isDigits (fun c => c == '0' || c == '1') s && digitsValue 2 s < Nat.pow 2 63
  | s =>
    isDecimal (dropSign s) &&
      digitsValue 10 (dropSign s) < Nat.pow 2 63 + if s.head? = some '-' then 1 else 0

/-- Whether a text is an exponent. -/
def isExponent : List Char → Bool
  | c :: s => (c == 'e' || c == 'E') && isDigits Char.isDigit (dropSign s)
  | [] => false

/-- Whether a text is a floating-point number. -/
def isFloat (s : List Char) : Bool :=
  let s := dropSign s
  if s = "inf".toList ∨ s = "nan".toList then true
  else
    let isMantissaChar (c : Char) := c.isDigit || c == '_'
    let rest := s.dropWhile isMantissaChar
    isDecimal (s.takeWhile isMantissaChar) &&
      match rest with
      | '.' :: t =>
        let tail := t.dropWhile isMantissaChar
        isDigits Char.isDigit (t.takeWhile isMantissaChar) && (tail.isEmpty || isExponent tail)
      | rest => isExponent rest

/-- Reads a number of `n` digits. -/
def fixed? (n : Nat) (s : List Char) : Option (Nat × List Char) :=
  let digits := s.take n
  if digits.length = n ∧ digits.all Char.isDigit then some (digitsValue 10 digits, s.drop n)
  else none

/-- Passes the character `c`. -/
def pass? (c : Char) : List Char → Option (List Char)
  | x :: s => if x = c then some s else none
  | [] => none

/-- The number of days of a month. -/
def monthLength (year month : Nat) : Nat :=
  if month = 2 then if year % 4 = 0 ∧ (year % 100 ≠ 0 ∨ year % 400 = 0) then 29 else 28
  else if month = 4 ∨ month = 6 ∨ month = 9 ∨ month = 11 then 30
  else 31

/-- Reads a date. -/
def date? (s : List Char) : Option (List Char) := do
  let (year, s) ← fixed? 4 s
  let (month, s) ← fixed? 2 (← pass? '-' s)
  let (day, s) ← fixed? 2 (← pass? '-' s)
  if 1 ≤ month ∧ month ≤ 12 ∧ 1 ≤ day ∧ day ≤ monthLength year month then some s else none

/-- Reads an hour and a minute. -/
def clock? (s : List Char) : Option (List Char) := do
  let (hour, s) ← fixed? 2 s
  let (minute, s) ← fixed? 2 (← pass? ':' s)
  if hour < 24 ∧ minute < 60 then some s else none

/-- Reads a time. -/
def time? (s : List Char) : Option (List Char) := do
  let s ← clock? s
  let (second, s) ← fixed? 2 (← pass? ':' s)
  if 60 < second then none
  match s with
  | '.' :: t => if (t.takeWhile Char.isDigit).isEmpty then none else some (t.dropWhile Char.isDigit)
  | s => some s

/-- Reads a distance from universal time, if there is one. -/
def offset? : List Char → Option (List Char)
  | 'Z' :: s => some s
  | 'z' :: s => some s
  | '+' :: s => clock? s
  | '-' :: s => clock? s
  | s => some s

/-- Reads a date, a time, or both. -/
def moment? (s : List Char) : Option (List Char) :=
  match date? s with
  | none => time? s
  | some (c :: t) =>
    if c = 'T' ∨ c = 't' ∨ c = ' ' then
      match time? t with
      | some u => offset? u
      | none => some (c :: t)
    else some (c :: t)
  | some [] => some []

/-- A character of a number. -/
def isNumberChar (c : Char) : Bool := c.isAlphanum || c == '+' || c == '-' || c == '_' || c == '.'

/-- Passes a number, a date or a time. -/
def number? (s : List Char) : Option (List Char) :=
  match moment? s with
  | some rest => some rest
  | none =>
    let word := s.takeWhile isNumberChar
    if isInteger word || isFloat word then some (s.drop word.length) else none

end StaticSite.Toml

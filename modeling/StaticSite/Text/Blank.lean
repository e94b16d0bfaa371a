/-!
# Blank characters

The characters with the Unicode property `White_Space`: twenty-five of them, in ten ranges. Trimming
removes them at the ends of a text, and collapsing turns each run of them into one space.
-/

namespace StaticSite.Text

/-- The ranges of the blank characters, ascending and apart. -/
def blankRanges : List (Nat × Nat) :=
  [(0x09, 0x0D), (0x20, 0x20), (0x85, 0x85), (0xA0, 0xA0), (0x1680, 0x1680), (0x2000, 0x200A),
   (0x2028, 0x2029), (0x202F, 0x202F), (0x205F, 0x205F), (0x3000, 0x3000)]

/-- Whether the character has the Unicode property `White_Space`. -/
def isBlank (c : Char) : Bool := blankRanges.any fun r => r.1 ≤ c.toNat && c.toNat ≤ r.2

/-- The text without the blanks at its start. -/
def trimStart (s : List Char) : List Char := s.dropWhile isBlank

/-- The text without the blanks at its end. -/
def trimEnd (s : List Char) : List Char := (s.reverse.dropWhile isBlank).reverse

/-- The text without the blanks at both ends. -/
def trim (s : List Char) : List Char := trimEnd (trimStart s)

/-- Turns every run of blanks into a single space. -/
def collapse : List Char → List Char
  | [] => []
  | c :: s =>
    if isBlank c then
      match s with
      | [] => [' ']
      | d :: _ => if isBlank d then collapse s else ' ' :: collapse s
    else c :: collapse s

example : collapse ['a', '\n', ' ', 'b', ' '] = ['a', ' ', 'b', ' '] := by decide

end StaticSite.Text

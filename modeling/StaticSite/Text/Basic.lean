/-!
# Texts and their bytes

Texts are taken apart as lists of characters. Positions that a reader of messages sees count the
bytes of the UTF-8 form, so this module measures and cuts lists of characters in bytes, and
compares names without regard to the case of ASCII letters.
-/

namespace StaticSite.Text

/-- The number of bytes of the UTF-8 form. -/
def byteSize : List Char → Nat
  | [] => 0
  | c :: s => c.utf8Size + byteSize s

@[simp] theorem byteSize_nil : byteSize [] = 0 := rfl

@[simp] theorem byteSize_cons (c : Char) (s : List Char) :
    byteSize (c :: s) = c.utf8Size + byteSize s := rfl

@[simp] theorem byteSize_append (s t : List Char) :
    byteSize (s ++ t) = byteSize s + byteSize t := by
  induction s with
  | nil => simp
  | cons c s ih => simp [ih, Nat.add_assoc]

/-- What is left after `n` bytes, or `none` if the `n`th byte lies inside a character or beyond
the end. -/
def dropBytes : Nat → List Char → Option (List Char)
  | 0, s => some s
  | _ + 1, [] => none
  | n + 1, c :: s => if c.utf8Size ≤ n + 1 then dropBytes (n + 1 - c.utf8Size) s else none

/-- The longest beginning of the text that has at most `n` bytes. -/
def takeBytes : Nat → List Char → List Char
  | _, [] => []
  | n, c :: s => if c.utf8Size ≤ n then c :: takeBytes (n - c.utf8Size) s else []

theorem dropBytes_append (s t : List Char) : dropBytes (byteSize s) (s ++ t) = some t := by
  induction s with
  | nil => simp [dropBytes]
  | cons c s ih =>
    have hc : 0 < c.utf8Size := c.utf8Size_pos
    obtain ⟨k, hk⟩ : ∃ k, byteSize (c :: s) = k + 1 := ⟨byteSize (c :: s) - 1, by simp; omega⟩
    have hk' : k + 1 - c.utf8Size = byteSize s := by simp at hk; omega
    rw [hk, List.cons_append, dropBytes, if_pos (by simp at hk; omega), hk', ih]

/-- The text with its ASCII letters in lower case. -/
def lower (s : List Char) : List Char := s.map Char.toLower

/-- Equality of names up to the case of ASCII letters. -/
def sameName (a b : String) : Bool := lower a.toList == lower b.toList

/-- White space between the parts of a tag: space, tab, carriage return and line feed. -/
def isSpace (c : Char) : Bool := c == ' ' || c == '\t' || c == '\r' || c == '\n'

/-- Splits the text before the first occurrence of `pattern`, if there is one. -/
def splitBefore? (pattern : List Char) : List Char → Option (List Char × List Char)
  | [] => if pattern.isEmpty then some ([], []) else none
  | c :: s =>
    if pattern.isPrefixOf (c :: s) then some ([], c :: s)
    else (splitBefore? pattern s).map fun p => (c :: p.1, p.2)

/-- Whether `pattern` occurs in the text. -/
def occursIn (pattern s : List Char) : Bool := (splitBefore? pattern s).isSome

/-- Splits the text after the first character `c`, which goes with the first part. A text
without it is all first part. -/
def splitAfter (c : Char) : List Char → List Char × List Char
  | [] => ([], [])
  | d :: s => if d = c then ([d], s) else let p := splitAfter c s; (d :: p.1, p.2)

theorem splitAfter_append (c : Char) (s : List Char) :
    (splitAfter c s).1 ++ (splitAfter c s).2 = s := by
  induction s with
  | nil => rfl
  | cons d s ih => simp only [splitAfter]; split <;> simp [ih]

/-- Replaces each character by a text. -/
def mapChars (f : Char → List Char) (s : String) : String := String.ofList (s.toList.flatMap f)

end StaticSite.Text

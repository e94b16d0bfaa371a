import StaticSite.Text.Basic

/-!
# Attributes of a start tag

An attribute is a name, alone or followed by `=` and a value. The value stands between quotes, or
is a run of characters without white space. Names and values are kept as they are written.

Reading is lenient. An attribute whose name was read before in the same tag is left out, and so is
one whose value is missing or whose quote is not closed; names that differ in case are different.
-/

namespace StaticSite.Html

open StaticSite.Text

/-- Whether the character continues an attribute name. -/
def continuesName (c : Char) : Bool := c != '=' && !isSpace c

/-- Splits a value that starts behind a quote at the closing quote. -/
def splitQuoted? (quote : Char) : List Char → Option (List Char × List Char)
  | [] => none
  | c :: s =>
    if c = quote then some ([], s) else (splitQuoted? quote s).map fun p => (c :: p.1, p.2)

theorem splitQuoted?_eq_some {quote : Char} {s value rest : List Char}
    (h : splitQuoted? quote s = some (value, rest)) : s = value ++ quote :: rest := by
  induction s generalizing value with
  | nil => simp [splitQuoted?] at h
  | cons c s ih =>
    unfold splitQuoted? at h
    split at h
    · simp_all
    · obtain ⟨p, hp, he⟩ := Option.map_eq_some_iff.1 h
      cases he
      rw [List.cons_append, ← ih hp]

theorem length_dropWhile_le (p : Char → Bool) (s : List Char) : (s.dropWhile p).length ≤ s.length :=
  (List.dropWhile_suffix p).sublist.length_le

set_option linter.unusedVariables false in
/-- Reads the attributes behind the name of a tag. The list `seen` holds the names that were read
before. -/
def readAttrs (seen : List (List Char)) (s : List Char) : List (String × String) :=
  match hs : s.dropWhile isSpace with
  | [] => []
  | c :: t =>
    let name := c :: t.takeWhile continuesName
    match hv : (t.dropWhile continuesName).dropWhile isSpace with
    | '=' :: v =>
      if name ∈ seen then readAttrs seen (v.dropWhile (!isSpace ·))
      else match hq : v.dropWhile isSpace with
        | [] => []
        | q :: w =>
          if q = '"' ∨ q = '\'' then
            match hr : splitQuoted? q w with
            | none => []
            | some (value, rest) =>
              (String.ofList name, String.ofList value) :: readAttrs (name :: seen) rest
          else
            (String.ofList name, String.ofList ((q :: w).takeWhile (!isSpace ·))) ::
              readAttrs (name :: seen) (w.dropWhile (!isSpace ·))
    | rest =>
      if name ∈ seen then readAttrs seen rest
      else (String.ofList name, "") :: readAttrs (name :: seen) rest
termination_by s.length
decreasing_by
  all_goals
    have h₁ := length_dropWhile_le isSpace s
    have h₂ := length_dropWhile_le continuesName t
    have h₃ := length_dropWhile_le isSpace (t.dropWhile continuesName)
    simp only [hs, hv, List.length_cons] at h₁ h₃
  · have := length_dropWhile_le (!isSpace ·) v
    omega
  · have h₄ := length_dropWhile_le isSpace v
    have h₅ := congrArg List.length (splitQuoted?_eq_some hr)
    simp only [hq, List.length_cons, List.length_append] at h₄ h₅
    omega
  · have h₄ := length_dropWhile_le isSpace v
    have h₅ := length_dropWhile_le (!isSpace ·) w
    simp only [hq, List.length_cons] at h₄
    omega
  · omega
  · omega

end StaticSite.Html

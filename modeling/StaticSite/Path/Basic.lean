/-!
# Paths

A path is a text whose parts are separated by `/`. Empty parts and parts `.` after the first stand
for nothing, so paths are compared, and stripped of their beginnings, by their `components`. The
text is kept as it was written, and operations that return part of a path return part of its text.

The text behind a leading `/` is cut into *pieces* at each `/`; a piece is a component unless it is
empty or a `.` that is not the first piece of a relative path.
-/

namespace StaticSite

/-- A path, absolute if its text starts with `/`. -/
structure Path where
  /-- The path as it was written. -/
  text : String
deriving DecidableEq, Repr, Inhabited, Hashable

/-- One step of a path. -/
inductive Component where
  /-- The `/` at the start of an absolute path. -/
  | root
  /-- The `.` at the start of a relative path. -/
  | current
  /-- The step `..`. -/
  | parent
  /-- A name. -/
  | name (s : List Char)
deriving DecidableEq, Repr

/-- The pieces of a text between the characters `/`; there is at least one. -/
def piecesOf : List Char → List (List Char)
  | [] => [[]]
  | c :: s =>
    if c = '/' then [] :: piecesOf s
    else match piecesOf s with
      | [] => [[c]]
      | p :: ps => (c :: p) :: ps

/-- Puts a `/` between the pieces. -/
def joinPieces : List (List Char) → List Char
  | [] => []
  | [p] => p
  | p :: ps => p ++ '/' :: joinPieces ps

theorem piecesOf_ne_nil (s : List Char) : piecesOf s ≠ [] := by
  cases s with
  | nil => simp [piecesOf]
  | cons c s =>
    unfold piecesOf
    split
    · simp
    · split <;> simp

theorem joinPieces_piecesOf (s : List Char) : joinPieces (piecesOf s) = s := by
  induction s with
  | nil => rfl
  | cons c s ih =>
    unfold piecesOf
    split
    · rename_i hc
      cases h : piecesOf s with
      | nil => exact absurd h (piecesOf_ne_nil s)
      | cons p ps => rw [← ih, h, hc]; rfl
    · cases h : piecesOf s with
      | nil => exact absurd h (piecesOf_ne_nil s)
      | cons p ps => rw [← ih, h]; cases ps <;> rfl

/-- The component that a piece stands for, where a `.` stands for nothing. -/
def Component.ofPiece? (piece : List Char) : Option Component :=
  if piece = [] ∨ piece = ['.'] then none
  else if piece = ['.', '.'] then some .parent
  else some (.name piece)

/-- The text of a component. -/
def Component.text : Component → List Char
  | .root => ['/']
  | .current => ['.']
  | .parent => ['.', '.']
  | .name s => s

namespace Path

instance : ToString Path := ⟨Path.text⟩

/-- The characters of the path. -/
def chars (p : Path) : List Char := p.text.toList

/-- The path with the given characters. -/
def ofChars (s : List Char) : Path := ⟨String.ofList s⟩

/-- Whether the path starts at the root. -/
def isAbsolute (p : Path) : Bool := p.chars.head? == some '/'

/-- The pieces of the path, behind the leading `/` of an absolute path. -/
def pieces (p : Path) : List (List Char) :=
  piecesOf (if p.isAbsolute then p.chars.tail else p.chars)

/-- The steps of the path. Paths with equal components name the same place. -/
def components (p : Path) : List Component :=
  if p.isAbsolute then .root :: p.pieces.filterMap Component.ofPiece?
  else match p.pieces with
    | ['.'] :: ps => .current :: ps.filterMap Component.ofPiece?
    | ps => ps.filterMap Component.ofPiece?

/-- Whether two paths have the same components. -/
def same (p q : Path) : Bool := p.components == q.components

/-- Whether the components of `p` start with those of `q`. -/
def startsWith (p q : Path) : Bool := q.components.isPrefixOf p.components

/-- The path `q` seen from the folder `p`; an absolute `q` stands for itself. -/
def join (p q : Path) : Path :=
  if q.isAbsolute then q
  else if p.chars.isEmpty ∨ p.chars.getLast? = some '/' then ofChars (p.chars ++ q.chars)
  else ofChars (p.chars ++ '/' :: q.chars)

/-- Whether a piece is no component. The first piece of a relative path may be a `.`. -/
def isVoidPiece (p : Path) (index : Nat) (piece : List Char) : Bool :=
  piece.isEmpty || (piece == ['.'] && (p.isAbsolute || index != 0))

/-- The pieces with their places in the path, the last piece first. -/
def piecesFromEnd (p : Path) : List (List Char × Nat) := p.pieces.zipIdx.reverse

/-- Drops what stands for nothing from pieces listed from the end. -/
def dropVoid (p : Path) (ps : List (List Char × Nat)) : List (List Char × Nat) :=
  ps.dropWhile fun x => isVoidPiece p x.2 x.1

/-- The path of the given pieces, which are listed from the end, below the root if `p` is. -/
def ofPiecesFromEnd (p : Path) (ps : List (List Char × Nat)) : Path :=
  let body := joinPieces (ps.reverse.map (·.1))
  ofChars (if p.isAbsolute then '/' :: body else body)

/-- The path without its last component, or `none` for the root and the empty path. -/
def parent? (p : Path) : Option Path :=
  match dropVoid p p.piecesFromEnd with
  | [] => none
  | _ :: ps => some (ofPiecesFromEnd p (dropVoid p ps))

/-- The last component, if it is a name. -/
def fileName? (p : Path) : Option (List Char) :=
  match p.components.getLast? with
  | some (.name s) => some s
  | _ => none

/-- Splits a file name at its last dot, unless the dot comes first. -/
def splitExtension (name : List Char) : List Char × Option (List Char) :=
  let after := (name.reverse.takeWhile (· != '.')).reverse
  let before := name.take (name.length - after.length - 1)
  if after.length = name.length ∨ before.isEmpty then (name, none) else (before, some after)

/-- What follows the last dot of the file name. -/
def extension? (p : Path) : Option String :=
  p.fileName?.bind fun name => (splitExtension name).2.map String.ofList

/-- The path with what follows the last dot of its file name replaced, or added behind a dot. A path
without file name stays as it is. -/
def setExtension (p : Path) (extension : String) : Path :=
  match p.fileName?, dropVoid p p.piecesFromEnd with
  | some name, (_, i) :: ps =>
    ofPiecesFromEnd p (((splitExtension name).1 ++ '.' :: extension.toList, i) :: ps)
  | _, _ => p

/-- The path with another extension. The old one is cut off first, which may leave a path `..`
without file name. -/
def withExtension (p : Path) (extension : String) : Path :=
  let cut := match p.extension? with
    | none => p
    | some old => ofChars (p.chars.take (p.chars.length - old.length))
  cut.setExtension extension

/-- Drops the pieces of `n` components, and then what stands for nothing. -/
def dropComponents : Nat → List (List Char × Nat) → Path → List (List Char × Nat)
  | _, [], _ => []
  | n, x :: ps, p =>
    if isVoidPiece p x.2 x.1 then dropComponents n ps p
    else match n with
      | 0 => x :: ps
      | n + 1 => dropComponents n ps p

/-- The rest of `p` behind the folder `q`, or `none` if `p` does not start with `q`. -/
def stripPrefix? (p q : Path) : Option Path :=
  if p.startsWith q then
    match q.components with
    | [] => some (ofPiecesFromEnd p (dropVoid p p.piecesFromEnd))
    | cs =>
      let n := if p.isAbsolute then cs.length - 1 else cs.length
      let rest := dropComponents n p.pieces.zipIdx p
      some (ofChars (joinPieces ((dropVoid p rest.reverse).reverse.map (·.1))))
  else none

end Path

end StaticSite

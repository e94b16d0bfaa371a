import StaticSite.Path.Basic
import StaticSite.Text.Basic

/-!
# Trees of files

The files and folders below the root. A *place* lists the names on the way from the root; a path is
walked through the tree to a place, where `..` leads to the folder around, so that a path through a
missing folder leads nowhere even if it comes back. There are no links.

Every operation says why it fails. Those that take several steps keep what was done before the step
that failed.
-/

namespace StaticSite

open StaticSite.Text

/-- The names on the way from the root. -/
abbrev Place := List String

/-- What stands at a place. -/
inductive FileEntry where
  /-- A folder. -/
  | folder
  /-- A file. -/
  | file (content : ByteArray)

instance : DecidableEq FileEntry
  | .folder, .folder => isTrue rfl
  | .folder, .file _ | .file _, .folder => isFalse nofun
  | .file a, .file b =>
    match a.decEq b with
    | isTrue h => isTrue (congrArg _ h)
    | isFalse h => isFalse fun hab => h (FileEntry.file.inj hab)

/-- Why an operation on files fails. -/
inductive FileError where
  /-- There is no such file or folder. -/
  | missing
  /-- A file stands where a folder is needed. -/
  | notFolder
  /-- A folder stands where a file is needed. -/
  | isFolder
  /-- There is such a file or folder. -/
  | occupied
  /-- A name or a path is too long. -/
  | tooLong
  /-- A path has a character with code zero. -/
  | zeroCharacter
  /-- The content of a file is no text. -/
  | notText
deriving DecidableEq, Repr

/-- What is said about an error. -/
def FileError.message : FileError → String
  | missing => "No such file or directory (os error 2)"
  | notFolder => "Not a directory (os error 20)"
  | isFolder => "Is a directory (os error 21)"
  | occupied => "File exists (os error 17)"
  | tooLong => "File name too long (os error 36)"
  | zeroCharacter => "file name contained an unexpected NUL byte"
  | notText => "stream did not contain valid UTF-8"

/-- Files and folders below the root. -/
structure FileTree where
  /-- What stands at each place but the root. -/
  entries : List (Place × FileEntry) := []

namespace FileTree

instance : Inhabited FileTree := ⟨{}⟩

/-! ## Places -/

/-- What stands at a place. -/
def entry? (t : FileTree) (place : Place) : Option FileEntry :=
  if place = [] then some .folder else t.entries.lookup place

/-- Sets what stands at a place in a list of entries. -/
def setIn (place : Place) (e : FileEntry) : List (Place × FileEntry) → List (Place × FileEntry)
  | [] => [(place, e)]
  | x :: xs => if x.1 = place then (place, e) :: xs else x :: setIn place e xs

/-- Sets what stands at a place. -/
def set (t : FileTree) (place : Place) (e : FileEntry) : FileTree := ⟨setIn place e t.entries⟩

/-- Removes everything at and below a place. -/
def removeUnder (t : FileTree) (place : Place) : FileTree :=
  ⟨t.entries.filter fun x => !place.isPrefixOf x.1⟩

/-- The greatest number of bytes of a name. -/
def nameLimit : Nat := 255

/-- The number of bytes that a path must not reach. -/
def pathLimit : Nat := 4096

/-- Walks one piece of a path further. -/
def step (t : FileTree) (place : Place) (piece : List Char) : Except FileError Place :=
  match t.entry? place with
  | none => .error .missing
  | some (.file _) => .error .notFolder
  | some .folder =>
    if piece = [] ∨ piece = ['.'] then .ok place
    else if piece = ['.', '.'] then .ok place.dropLast
    else if nameLimit < byteSize piece then .error .tooLong
    else
      let next := place ++ [String.ofList piece]
      if (t.entry? next).isSome then .ok next else .error .missing

/-- Walks the pieces of a path. -/
def walk (t : FileTree) (place : Place) (pieces : List (List Char)) : Except FileError Place :=
  pieces.foldlM t.step place

/-- Refuses a path that can lead nowhere. -/
def checkPath (p : Path) : Except FileError Unit :=
  if '\x00' ∈ p.chars then .error .zeroCharacter
  else if p.chars.isEmpty then .error .missing
  else if pathLimit ≤ byteSize p.chars then .error .tooLong
  else .ok ()

/-- The place that a path leads to from the root. -/
def locate (t : FileTree) (p : Path) : Except FileError Place := do
  checkPath p
  t.walk [] p.pieces

/-- The path of a place. -/
def pathOf (place : Place) : Path := ⟨"/" ++ String.intercalate "/" place⟩

/-! ## Looking -/

/-- What a path leads to. -/
def find? (t : FileTree) (p : Path) : Option FileEntry := (t.locate p).toOption.bind t.entry?

/-- Whether a path leads to something. -/
def hasPath (t : FileTree) (p : Path) : Bool := (t.find? p).isSome

/-- Whether a path leads to a file. -/
def isFile (t : FileTree) (p : Path) : Bool :=
  match t.find? p with
  | some (.file _) => true
  | _ => false

/-- Whether a path leads to a folder. -/
def isFolder (t : FileTree) (p : Path) : Bool := t.find? p == some .folder

/-- The path without detours to where a path leads. -/
def canonical? (t : FileTree) (p : Path) : Option Path := (t.locate p).toOption.map pathOf

/-- The content of a file. -/
def readFile (t : FileTree) (p : Path) : Except FileError ByteArray := do
  match t.entry? (← t.locate p) with
  | some (.file content) => .ok content
  | some .folder => .error .isFolder
  | none => .error .missing

/-- The content of a text file. -/
def readText (t : FileTree) (p : Path) : Except FileError String := do
  match String.fromUTF8? (← t.readFile p) with
  | some s => .ok s
  | none => .error .notText

/-- The places of the files at and below a place, as they are seen from there, in the order of their
names. -/
def filesUnder (t : FileTree) (place : Place) : List Place :=
  let found := t.entries.filterMap fun x =>
    match x.2 with
    | .file _ => if place.isPrefixOf x.1 then some (x.1.drop place.length) else none
    | .folder => none
  found.mergeSort fun a b => !(b < a)

/-- The paths of the files at and below a path, in the order of their names. -/
def files (t : FileTree) (p : Path) : List Path :=
  match t.locate p with
  | .ok place => (t.filesUnder place).map fun names => names.foldl (fun q n => q.join ⟨n⟩) p
  | .error _ => []

/-- The number of bytes of all files. -/
def size (t : FileTree) : Nat :=
  t.entries.foldl (fun n x =>
    match x.2 with
    | .file content => n + content.size
    | .folder => n) 0

/-! ## Changing -/

/-- The pieces of a path without the empty ones at its end. -/
def namePieces (p : Path) : List (List Char) := (p.pieces.reverse.dropWhile (·.isEmpty)).reverse

/-- The place of the folder that the last of the pieces lies in. -/
def holder (t : FileTree) (p : Path) (pieces : List (List Char)) : Except FileError Place := do
  checkPath p
  let place ← t.walk [] pieces.dropLast
  match t.entry? place with
  | some .folder => .ok place
  | _ => .error .notFolder

/-- Whether a piece is no name. -/
def isDetour (piece : List Char) : Bool :=
  piece.isEmpty || piece == ['.'] || piece == ['.', '.']

/-- Makes a folder in a folder that is there. -/
def createFolder (t : FileTree) (p : Path) : Except FileError FileTree := do
  let pieces := namePieces p
  let place ← t.holder p pieces
  let piece := pieces.getLast?.getD []
  if isDetour piece then .error .occupied
  else if nameLimit < byteSize piece then .error .tooLong
  else
    let next := place ++ [String.ofList piece]
    if (t.entry? next).isSome then .error .occupied else .ok (t.set next .folder)

/-- Makes a folder, and the folders around it as far as they are missing, at most `bound` of them.
-/
def createFoldersWithin : (bound : Nat) → FileTree → Path → FileTree × Option FileError
  | 0, t, _ => (t, some .missing)
  | bound + 1, t, p =>
    let settle (t : FileTree) (e : FileError) := (t, if t.isFolder p then none else some e)
    if p.text.isEmpty then (t, none)
    else match t.createFolder p with
    | .ok t => (t, none)
    | .error .missing =>
      match p.parent? with
      | none => (t, some .missing)
      | some q =>
        match createFoldersWithin bound t q with
        | (t, some e) => (t, some e)
        | (t, none) =>
          match t.createFolder p with
          | .ok t => (t, none)
          | .error e => settle t e
    | .error e => settle t e

/-- Makes a folder, and the folders around it as far as they are missing. The empty path needs none.
-/
def createFolders (t : FileTree) (p : Path) : FileTree × Option FileError :=
  createFoldersWithin (p.components.length + 1) t p

/-- Writes a file into a folder that is there. -/
def writeFile (t : FileTree) (p : Path) (content : ByteArray) : Except FileError FileTree := do
  let pieces := p.pieces
  let place ← t.holder p pieces
  let piece := pieces.getLast?.getD []
  if isDetour piece then .error .isFolder
  else if nameLimit < byteSize piece then .error .tooLong
  else
    let next := place ++ [String.ofList piece]
    if t.entry? next = some .folder then .error .isFolder else .ok (t.set next (.file content))

/-- Copies a file. A file that is copied onto itself is emptied. -/
def copyFile (t : FileTree) (source target : Path) : Except FileError FileTree := do
  let content ← t.readFile source
  let same := (t.locate source).toOption == (t.locate target).toOption
  t.writeFile target (if same then ByteArray.empty else content)

/-- Removes a folder with all that it holds. -/
def removeFolder (t : FileTree) (p : Path) : Except FileError FileTree := do
  let place ← t.locate p
  match t.entry? place with
  | some .folder => .ok (t.removeUnder place)
  | some (.file _) => .error .notFolder
  | none => .error .missing

end FileTree

end StaticSite

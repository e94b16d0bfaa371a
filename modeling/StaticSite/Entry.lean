import StaticSite.FileTree
import StaticSite.Layout
import StaticSite.Log
import StaticSite.Path.Map

/-!
# The pages of a site

A site consists of its input document and of the documents in the folder of the pages. Two sources
that are written to the same file cannot both be pages; the one that is found first wins.
-/

namespace StaticSite

/-- Names of files that are never sources. -/
def ignoredNames : List String := [".DS_Store"]

/-- The files at and below a path that may be sources, in the order of their names. -/
def sourceFiles (t : FileTree) (p : Path) : List Path :=
  (t.files p).filter fun q => !(q.fileName?.any fun n => ignoredNames.contains (String.ofList n))

/-- A source that is no page because another one is written to the same file. -/
structure EntryConflict where
  /-- The source that is the page. -/
  first : Path
  /-- The source that is none. -/
  later : Path
  /-- The file. -/
  output : Path
deriving DecidableEq, Repr

/-- What is logged about a conflict. -/
def EntryConflict.warning (c : EntryConflict) : Log.Entry :=
  Log.warning s!"`{c.first}` and `{c.later}` both write `{c.output}`, skipping the latter"

namespace Layout

/-- The sources that may be pages, given the files in the folder of the pages. -/
def candidates (l : Layout) (found : List Path) : List Path :=
  l.input :: found.filter fun p => isPageSource p && !p.same l.input

/-- Chooses the pages among sources, where `taken` tells which files are written by pages chosen
before. -/
def choose (l : Layout) (taken : PathMap Path) : List Path → List Path × List EntryConflict
  | [] => ([], [])
  | p :: ps =>
    let output := l.outputPath p
    match taken.get? output with
    | some first =>
      let rest := choose l taken ps
      (rest.1, { first, later := p, output } :: rest.2)
    | none =>
      let rest := choose l (taken.insert output p) ps
      (p :: rest.1, rest.2)

/-- The pages of a site, given the files in the folder of the pages, and the conflicts. -/
def entries (l : Layout) (found : List Path) : List Path × List EntryConflict :=
  l.choose PathMap.empty (l.candidates found)

end Layout

end StaticSite

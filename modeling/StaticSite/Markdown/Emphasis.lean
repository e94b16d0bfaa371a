import StaticSite.Markdown.Token

/-!
# Emphasis

Runs of `*`, `_` and `~` are matched from left to right: a run that can close is matched with the
nearest open run of its character. If one of the two runs can both open and close, their lengths
together must not be a multiple of three, unless both are. Runs of `~` match runs of the same
length. Two characters on each side make strong emphasis, and one makes emphasis.

An open run keeps what stands before it, and what follows is collected until the run is matched, or
is found to be text.
-/

namespace StaticSite.Markdown

/-- What a text is made of before emphasis is found. -/
inductive Inline where
  /-- Something that was read. -/
  | tree (t : Tree)
  /-- A run that can mark emphasis. -/
  | run (r : Run)
  /-- A line break that a backslash keeps. -/
  | slashBreak (span : Span)

/-- An open run, with what stands before it from the last to the first. -/
structure OpenRun where
  /-- The run. -/
  run : Run
  /-- What stands before the run. -/
  before : List Tree

/-- Whether a run can both open and close. -/
def Run.both (r : Run) : Bool := r.opens && r.closes

/-- Whether an open run can be matched with a run that closes. -/
def Run.matchesOpen (r o : Run) : Bool :=
  o.char == r.char && (r.char != '~' || r.length == o.length) &&
    ((!r.both && !o.both) || (r.length + o.length) % 3 != 0 || r.length % 3 == 0)

/-- The characters of a run as text, from the last to the first. -/
def Run.texts (r : Run) : List Tree :=
  (List.range r.count).reverse.map fun i =>
    .leaf (.text (String.singleton r.char)) ⟨r.start + i, r.start + i + 1⟩

/-- Takes an open run for text. -/
def OpenRun.close (o : OpenRun) (out : List Tree) : List Tree := out ++ o.run.texts ++ o.before

/-- What is collected when all open runs are taken for text. -/
def closeAll (out : List Tree) : List OpenRun → List Tree
  | [] => out
  | o :: os => closeAll (o.close out) os

/-- Finds the nearest open run that a run matches. The runs inside it are taken for text. -/
def findOpen (r : Run) (out : List Tree) :
    List OpenRun → Option (OpenRun × List OpenRun × List Tree)
  | [] => none
  | o :: os => if r.matchesOpen o.run then some (o, os, out) else findOpen r (o.close out) os

/-- The container that a number of characters of a run makes. -/
def containerOf (c : Char) (width : Nat) : Container :=
  if c = '~' then .deleted else if width = 2 then .strong else .emphasis

/-- Puts containers around what is emphasized: `count` characters on each side are used, two by two
from the inside. The place behind the opening characters and that of the closing ones are given. -/
def nest (c : Char) (openStop closeStart : Nat) : (count : Nat) → List Tree → List Tree
  | 0, ts => ts
  | 1, ts => [.node (containerOf c 1) ⟨openStop - 1, closeStart + 1⟩ ts]
  | count + 2, ts =>
    nest c (openStop - 2) (closeStart + 2) count
      [.node (containerOf c 2) ⟨openStop - 2, closeStart + 2⟩ ts]

/-- Matches a run that closes with open runs, as often as there are any; each time the run gets
shorter, which `fuel` counts. -/
def closeRun : (fuel : Nat) → Run → List OpenRun → List Tree → Run × List OpenRun × List Tree
  | 0, r, opened, out => (r, opened, out)
  | fuel + 1, r, opened, out =>
    if r.count = 0 then (r, opened, out)
    else match findOpen r out opened with
      | none => (r, opened, out)
      | some (o, opened, inner) =>
        let used := min r.count o.run.count
        let made := nest r.char (o.run.start + o.run.count) r.start used inner.reverse
        let r := { r with count := r.count - used, start := r.start + used }
        if o.run.count = used then closeRun fuel r opened (made ++ o.before)
        else
          closeRun fuel r ({ o with run := { o.run with count := o.run.count - used } } :: opened)
            made

/-- Finds the emphasis in a text. -/
def emphasize (opened : List OpenRun) (out : List Tree) : List Inline → List Tree
  | [] => (closeAll out opened).reverse
  | .tree t :: rest => emphasize opened (t :: out) rest
  | .slashBreak span :: rest =>
    emphasize opened (.leaf (if rest.isEmpty then .text "\\" else .hardBreak) span :: out) rest
  | .run r :: rest =>
    let (r, opened, out) := if r.closes then closeRun r.count r opened out else (r, opened, out)
    if r.count = 0 then emphasize opened out rest
    else if r.opens then emphasize (⟨r, out⟩ :: opened) [] rest
    else emphasize opened (r.texts ++ out) rest

end StaticSite.Markdown

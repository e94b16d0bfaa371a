import StaticSite.Build
import StaticSite.Path.Normalize

/-!
# The program

The folders that a build looks at are read into a tree of files, the site is built there, and what
has changed is written to the disk. Nothing is decided here.
-/

namespace StaticSite

/-- The place that an absolute path names. -/
def Path.place (p : Path) : Place :=
  p.normalize.components.filterMap fun
    | .name n => some (String.ofList n)
    | _ => none

namespace Disk

/-- Reads what stands at and below a place. -/
partial def readUnder (t : FileTree) (place : Place) : IO FileTree := do
  let path := (← IO.currentDir) / (FileTree.pathOf place).text
  if ← path.isDir then
    (← path.readDir).foldlM (fun t e => readUnder t (place ++ [e.fileName])) (t.set place .folder)
  else if ← path.pathExists then
    return t.set place (.file (← IO.FS.readBinFile path))
  else
    return t

/-- Reads what stands at the places around a place, but not what else is there. -/
def readAround (t : FileTree) (place : Place) : IO FileTree :=
  (List.range place.length).foldlM (fun t n => do
    let around := place.take n
    let path := (← IO.currentDir) / (FileTree.pathOf around).text
    if (t.entry? around).isSome then return t
    else if ← path.isDir then return t.set around .folder
    else if ← path.pathExists then return t.set around (.file ByteArray.empty)
    else return t) t

/-- Reads what a path leads to. -/
def read (t : FileTree) (p : Path) : IO FileTree := do
  readUnder (← readAround t p.place) p.place

/-- Removes what the tree does not hold any more, and writes what is new in it. -/
def write (before after : FileTree) : IO Unit := do
  let here ← IO.currentDir
  let innerFirst := before.entries.mergeSort fun x y => y.1.length ≤ x.1.length
  for (place, e) in innerFirst do
    if after.entry? place ≠ some e then
      let path := here / (FileTree.pathOf place).text
      match e with
      | .folder => IO.FS.removeDir path
      | .file _ => IO.FS.removeFile path
  let outerFirst := after.entries.mergeSort fun x y => x.1.length ≤ y.1.length
  for (place, e) in outerFirst do
    if before.entry? place ≠ some e then
      let path := here / (FileTree.pathOf place).text
      match e with
      | .folder => IO.FS.createDirAll path
      | .file content => IO.FS.writeBinFile path content

end Disk

namespace Program

/-- The folders that a build looks at, as far as they are known from the folder of the project. -/
def folders (s : Config.Surroundings) (t : FileTree) (l : CommandLine) : List Path :=
  match Config.read s t l with
  | .ok c => [c.base, c.output]
  | .error _ => []

/-- Says why there is nothing to run. -/
def reject : Unread → IO UInt32
  | .help text => do IO.print text; return 0
  | .version text => do IO.print text; return 0
  | e => do IO.eprintln s!"error: {e.message}"; return 2

/-- Fails with a message. -/
def fail (message : String) : IO UInt32 := do
  IO.eprintln s!"Error: {message}"
  return 1

/-- Prints what was logged. -/
def print (details : Bool) (log : List Log.Entry) : IO Unit := do
  let out ← IO.getStdout
  let colored ← out.isTty
  (Log.shown details log).forM fun e => out.putStr (e.render colored)
  out.flush

/-- Runs a command line. -/
def run (l : CommandLine) : IO UInt32 := do
  let s : Config.Surroundings :=
    { folder := ⟨(← IO.currentDir).toString⟩, home := (← IO.getEnv "HOME").map Path.mk }
  let t ← Disk.read {} (s.folder.join (l.root.getD ⟨"./"⟩))
  let before ← (folders s t l).foldlM Disk.read t
  match Config.load s before l with
  | .error e => fail e.message
  | .ok c =>
    let (result, after) := (Build.site c).run { tree := before }
    Disk.write before after.tree
    print l.verbose after.progress.log
    match result with
    | .ok _ => return 0
    | .error e => fail e.message

end Program

end StaticSite

/-- Reads the arguments and runs them. -/
def main (args : List String) : IO UInt32 :=
  match StaticSite.CommandLine.parse args with
  | .ok l => StaticSite.Program.run l
  | .error e => StaticSite.Program.reject e

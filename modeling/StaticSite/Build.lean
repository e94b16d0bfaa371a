import StaticSite.Component.Compile
import StaticSite.Config
import StaticSite.Entry
import StaticSite.Html.Writer
import StaticSite.Link
import StaticSite.LiveReload

/-!
# Building a site

A build empties or makes the output folder, chooses the pages, copies the static files, and compiles
and writes each page. A page that fails is skipped and the others are built all the same; only
an output folder that cannot be prepared ends the build. All pages share one cache of components.

`Build` is a step of a build. It changes the files, what is known of the components, and the log,
also where it fails.
-/

namespace StaticSite

open StaticSite.Html

/-! ## Outcomes -/

/-- What became of a page. -/
inductive Outcome where
  /-- The page was written. -/
  | written (source output : Path)
  /-- The page failed. -/
  | skipped (source : Path) (reason : String)
deriving DecidableEq, Repr

/-- Whether the page was written. -/
def Outcome.isWritten : Outcome → Bool
  | written .. => true
  | skipped .. => false

/-- What is logged about an outcome where details are asked for. -/
def Outcome.detail : Outcome → Log.Entry
  | written source output =>
    { source := "write", message := s!"{source} -> {output}", detail := true }
  | skipped source reason => { source := "skip", message := s!"{source}: {reason}", detail := true }

/-- Why a site cannot be built. -/
inductive BuildError where
  /-- The output folder cannot be emptied. -/
  | uncleared (output : Path) (reason : FileError)
  /-- The output folder cannot be made. -/
  | uncreated (output : Path) (reason : FileError)
deriving DecidableEq, Repr

/-- What is said about an error. -/
def BuildError.message : BuildError → String
  | uncleared p _ => s!"Failed to clear output directory: {p}"
  | uncreated p _ => s!"Failed to create output directory: {p}"

/-! ## Files -/

/-- The documents of a site, read from files. A document is named by where it lies, or by the name
of an element, so there are no more names than files and characters. -/
def Sources.ofTree (t : FileTree) : Sources where
  read p :=
    match t.readText p with
    | .ok s => .ok s
    | .error .missing => .error .missing
    | .error e => .error (.failed e.message)
  contains p := t.isFile p
  bound := t.entries.length + t.size

/-- Makes the output folder, and empties it first if it is asked for. -/
def prepareOutput (t : FileTree) (output : Path) (clean : Bool) : FileTree × Option BuildError :=
  let emptied := if clean && t.hasPath output then t.removeFolder output else .ok t
  match emptied with
  | .error e => (t, some (.uncleared output e))
  | .ok t =>
    match t.createFolders output with
    | (t, none) => (t, none)
    | (t, some e) => (t, some (.uncreated output e))

/-- Makes the folder that a file is to lie in. -/
def prepareFolder (t : FileTree) (file : Path) : FileTree × Option String :=
  match file.parent? with
  | none => (t, none)
  | some folder =>
    match t.createFolders folder with
    | (t, none) => (t, none)
    | (t, some e) => (t, some s!"Failed to create directory: {folder}: {e.message}")

/-- Copies files from one folder to another, each to the same place, until one fails. -/
def copyFiles (source target : Path) : List Path → FileTree → FileTree × Option String
  | [], t => (t, none)
  | file :: files, t =>
    let copy := target.join ((file.stripPrefix? source).getD file)
    match prepareFolder t copy with
    | (t, some e) => (t, some e)
    | (t, none) =>
      match t.copyFile file copy with
      | .error e => (t, some s!"Failed to copy: {file}: {e.message}")
      | .ok t => copyFiles source target files t

/-! ## Pages -/

/-- What a build changes. -/
structure Building where
  /-- The files. -/
  tree : FileTree
  /-- What is known of the components, and the log. -/
  progress : Progress := {}

/-- A step of a build. -/
abbrev Build := StateM Building

namespace Build

/-- Logs an entry. -/
def report (e : Log.Entry) : Build Unit :=
  modify fun s => { s with progress := { s.progress with log := s.progress.log ++ [e] } }

/-- Changes the files by a step that may fail. -/
def changeFiles (step : FileTree → FileTree × Option String) : Build (Option String) :=
  modifyGet fun s => ((step s.tree).2, { s with tree := (step s.tree).1 })

/-- Copies the static files to the output folder. -/
def copyStatic (l : Layout) : Build Unit := do
  let t := (← get).tree
  if t.isFolder l.staticDir then
    let files := sourceFiles t l.staticDir
    match ← changeFiles (copyFiles l.staticDir l.staticOutputDir files) with
    | some e => report { source := "error", message := s!"static assets: {e}" }
    | none => report { source := "assets", message := s!"copied {files.length} files" }
  else
    report
      { source := "assets", message := s!"no static folder at {l.staticDir}", detail := true }

/-- Compiles a page for a new scope. -/
def compile (l : Layout) (source : Path) : Build (Except CompileError Forest) :=
  modifyGet fun s =>
    let c : Compiler :=
      { resolver := .ofRoot l.base, components := l.componentsDir, sources := .ofTree s.tree }
    let (result, progress) := (c.compilePage source).run s.progress
    (result, { s with progress := { progress with scope := progress.scope.reset } })

/-- Whether the source that a link leads to is there, as HTML or as Markdown. -/
def hasSource (t : FileTree) (target : Path) : Bool :=
  t.hasPath target || t.hasPath (target.withExtension "md")

/-- Logs the links of a page that lead to no source. -/
def reportMissing (source : Path) (targets : List Path) : Build Unit := do
  let t := (← get).tree
  let missing := (targets.filter fun p => !hasSource t p).mergeSort fun a b => !(b.text < a.text)
  missing.forM fun p =>
    report { source := "links", message := s!"{source} links to missing {p}", detail := true }

/-- Writes a page. -/
def writePage (l : Layout) (source : Path) (html : String) : Build Outcome := do
  let output := l.outputPath source
  let failure ← changeFiles fun t =>
    match prepareFolder t output with
    | (t, some e) => (t, some e)
    | (t, none) =>
      match t.writeFile output html.toUTF8 with
      | .ok t => (t, none)
      | .error e => (t, some s!"Failed to write: {output}: {e.message}")
  return match failure with
    | some e => .skipped source e
    | none => .written source output

/-- Changes the links of a compiled page, adds the script that reloads it, and writes it. -/
def finishPage (c : Config) (source : Path) (page : Forest) : Build Outcome := do
  let relinker : Relinker := { base := c.base, pages := c.pages }
  ((relinker.links page).filterMap relinker.warning?).forM report
  reportMissing source (relinker.inventory page)
  let page := relinker.relink page
  let page := if c.reload.enable then (injectReload c.reload.src page).getD page else page
  writePage c.layout source (serialize page)

/-- Builds a page. -/
def page (c : Config) (source : Path) : Build Outcome := do
  let relative := (source.stripPrefix? c.base).getD source
  report { source := "compile", message := relative.text }
  let outcome ←
    match ← compile c.layout source with
    | .ok page => finishPage c source page
    | .error e => pure (.skipped source (": ".intercalate (e.message :: e.reason?.toList)))
  if let .skipped _ reason := outcome then
    report { source := "error", message := s!"{relative}: {reason}" }
  return outcome

/-- What is logged at the end. -/
def summary (outcomes : List Outcome) : Log.Entry :=
  let written := (outcomes.filter (·.isWritten)).length
  let skipped := outcomes.length - written
  if written = 0 then Log.warning "no pages written, check [build.input] and [build.pages]"
  else if 0 < skipped then Log.warning s!"{written} pages written, {skipped} skipped"
  else { source := "build", message := s!"done, {written} pages written" }

/-- Builds the pages. The static files are copied before the first one. -/
def pages (c : Config) : Build (List Outcome) := do
  let l := c.layout
  let (entries, conflicts) := l.entries (sourceFiles (← get).tree l.pagesDir)
  (conflicts.map (·.warning)).forM report
  report { source := "build", message := s!"compiling {entries.length} pages..." }
  copyStatic l
  let outcomes ← entries.mapM (page c)
  let compiled := (← get).progress.cache.size
  report { source := "cache", message := s!"{compiled} fragments compiled", detail := true }
  (outcomes.map (·.detail)).forM report
  report (summary outcomes)
  return outcomes

/-- Builds a site. -/
def site (c : Config) : Build (Except BuildError (List Outcome)) := do
  let prepared := prepareOutput (← get).tree c.output c.clean
  modify fun s => { s with tree := prepared.1 }
  match prepared.2 with
  | some e => return .error e
  | none => .ok <$> pages c

end Build

end StaticSite

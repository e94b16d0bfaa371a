import StaticSite.CommandLine
import StaticSite.FileTree
import StaticSite.Layout
import StaticSite.Toml.Value

/-!
# The configuration of a site

A file in TOML says where the sources of a site lie, where its pages are written, and how it is
built. `Config.parse` reads such a text, and `Config.load` finds the file, lets the command line
override it, makes its paths absolute and checks them. A key that is not known is an error, and so
is a value of the wrong kind. A table may also be written as an array of the values of its keys, in
their order; further items of such an array are passed over.
-/

namespace StaticSite

/-- The script that reloads pages while a site is being written. -/
structure ReloadConfig where
  /-- Whether pages load the script. -/
  enable : Bool := false
  /-- The address of the script. -/
  src : String := "/__quilt/reload.js"
deriving DecidableEq, Repr

/-- The configuration of a site. -/
structure Config where
  /-- The file that the configuration was read from. -/
  file : Path := ⟨""⟩
  /-- The folder of the project. -/
  root : Path := ⟨""⟩
  /-- The document that the site starts with; its folder is the base folder. -/
  input : Path := ⟨"src/index.html"⟩
  /-- The folder of the pages, relative to the base folder. -/
  pages : Path := ⟨"pages"⟩
  /-- The folder that pages are written to. -/
  output : Path := ⟨"dist"⟩
  /-- The folder of the static files, relative to the base folder. -/
  static : Path := ⟨"static"⟩
  /-- The folder of the components, relative to the base folder. -/
  components : Path := ⟨"components"⟩
  /-- Whether the output folder is emptied before a build. -/
  clean : Bool := true
  /-- Whether pages are compiled side by side. -/
  parallel : Bool := true
  /-- The script that reloads pages. -/
  reload : ReloadConfig := {}
deriving DecidableEq, Repr

/-- Why a configuration cannot be used. -/
inductive ConfigError where
  /-- There is no such file. -/
  | missing (path : Path)
  /-- The file cannot be read. -/
  | unreadable (path : Path)
  /-- The text is malformed, or has a key or value that does not fit. -/
  | malformed
  /-- There is no such input file. -/
  | noInput (path : Path)
  /-- The input is no file. -/
  | inputFolder
  /-- The input is no document. -/
  | inputExtension
  /-- A folder leads out of the base folder. -/
  | escaping (field : String)
  /-- The sources lie in the output folder. -/
  | outputHoldsSources
deriving DecidableEq, Repr

namespace ConfigError

/-- What is said about a configuration whose paths do not fit. -/
def problem? : ConfigError → Option String
  | noInput p => some s!"[build.input] `{p}` not found"
  | inputFolder => some "[build.input] is not a file"
  | inputExtension => some "[build.input] must be an .html or .md file"
  | escaping field => some s!"{field} must be a relative path inside the source folder"
  | outputHoldsSources => some "[build.output] must not contain the source folder"
  | _ => none

/-- What is said about an error. -/
def message : ConfigError → String
  | missing p => s!"config file `{p}` not found"
  | unreadable p => s!"IO error when reading `{p}`"
  | malformed => "Config file parsing error"
  | e => "Config validation error: " ++ e.problem?.getD ""

end ConfigError

namespace Config

/-! ## Reading -/

/-- The values of the keys of a table, all of which are listed. -/
def fields? (keys : List String) : Toml.Value → Option (List (String × Toml.Value))
  | .table _ entries => if entries.all (keys.contains ·.1) then some entries else none
  | .array items => some (keys.zip items)
  | .tables items => some (keys.zip items)
  | _ => none

/-- The value of a key that may be left out. -/
def field? {α : Type} (fields : List (String × Toml.Value)) (key : String)
    (read : Toml.Value → Option α) (default : α) : Option α :=
  match fields.lookup key with
  | none => some default
  | some v => read v

/-- Reads a text. -/
def text? : Toml.Value → Option String
  | .string s => some s
  | _ => none

/-- Reads a path. -/
def path? (v : Toml.Value) : Option Path := (text? v).map Path.mk

/-- Reads a truth value. -/
def truth? : Toml.Value → Option Bool
  | .boolean b => some b
  | _ => none

/-- Reads the table about the script that reloads pages. -/
def reload? (v : Toml.Value) : Option ReloadConfig := do
  let fs ← fields? ["enable", "src"] v
  let d : ReloadConfig := {}
  some { enable := ← field? fs "enable" truth? d.enable, src := ← field? fs "src" text? d.src }

/-- Reads the table about the build. -/
def build? (v : Toml.Value) : Option Config := do
  let fs ← fields?
    ["input", "pages", "output", "static", "components", "clean", "parallel", "reload"] v
  let d : Config := {}
  some
    { input := ← field? fs "input" path? d.input
      pages := ← field? fs "pages" path? d.pages
      output := ← field? fs "output" path? d.output
      static := ← field? fs "static" path? d.static
      components := ← field? fs "components" path? d.components
      clean := ← field? fs "clean" truth? d.clean
      parallel := ← field? fs "parallel" truth? d.parallel
      reload := ← field? fs "reload" reload? d.reload }

/-- Reads a configuration. -/
def parse? (s : String) : Option Config := do
  let v ← Toml.Value.parse? s.toList
  let fs ← fields? ["build"] v
  field? fs "build" build? {}

/-- Reads a configuration, or says that it is malformed. -/
def parse (s : String) : Except ConfigError Config :=
  match parse? s with
  | some c => .ok c
  | none => .error .malformed

/-! ## Loading -/

/-- Where the program runs. -/
structure Surroundings where
  /-- The folder that relative paths start from. -/
  folder : Path
  /-- The folder that `~` stands for. -/
  home : Option Path := none
deriving DecidableEq, Repr

/-- The path with a leading `~` replaced by the home folder. -/
def Surroundings.expandHome (s : Surroundings) (p : Path) : Path :=
  match s.home, p.chars with
  | some home, ['~'] => home
  | some home, '~' :: '/' :: rest => .ofChars (home.chars ++ '/' :: rest)
  | _, _ => p

/-- The path without detours if it leads somewhere, and else the path seen from the folder that
relative paths start from. -/
def Surroundings.settle (s : Surroundings) (t : FileTree) (p : Path) : Path :=
  if p.text.isEmpty then s.folder.join p
  else (t.canonical? (s.folder.join p)).getD (s.folder.join p)

/-- The configuration with what the command line says, and with absolute paths. -/
def override (c : Config) (s : Surroundings) (t : FileTree) (l : CommandLine) : Config :=
  let root := s.settle t (l.root.getD c.root)
  { c with
    file := s.settle t (root.join l.config)
    root
    input := s.settle t (root.join (s.expandHome c.input))
    output := s.settle t (root.join (l.output.getD c.output))
    clean := l.clean.getD c.clean
    parallel := c.parallel && !l.sequential
    reload := { c.reload with enable := c.reload.enable || l.dev } }

/-- The folder of the input. -/
def base (c : Config) : Path := c.input.parent?.getD ⟨"./"⟩

/-- Whether a path stays in the folder that it starts from. -/
def staysInside (p : Path) : Bool :=
  p.components.all fun
    | .name _ => true
    | .current => true
    | _ => false

/-- Refuses a folder that leads out of the base folder. -/
def checkFolder (field : String) (p : Path) : Except ConfigError Unit :=
  if staysInside p then .ok () else .error (.escaping field)

/-- Refuses a configuration whose paths do not fit. -/
def validate (c : Config) (t : FileTree) : Except ConfigError Unit := do
  if !t.hasPath c.input then .error (.noInput c.input)
  if !t.isFile c.input then .error .inputFolder
  if !isPageSource c.input then .error .inputExtension
  checkFolder "[build.pages]" c.pages
  checkFolder "[build.static]" c.static
  checkFolder "[build.components]" c.components
  if c.base.startsWith c.output then .error .outputHoldsSources

/-- The file that a command line names. -/
def fileOf (l : CommandLine) : Path := (l.root.getD ⟨"./"⟩).join l.config

/-- Finds and reads the file that a command line names, and lets the command line override it. -/
def read (s : Surroundings) (t : FileTree) (l : CommandLine) : Except ConfigError Config := do
  let file := fileOf l
  if !t.isFile (s.folder.join file) then .error (.missing file)
  match t.readText (s.folder.join file) with
  | .error _ => .error (.unreadable file)
  | .ok text => return (← parse text).override s t l

/-- Finds, reads and checks the configuration that a command line asks for. -/
def load (s : Surroundings) (t : FileTree) (l : CommandLine) : Except ConfigError Config := do
  let c ← read s t l
  c.validate t
  return c

/-- The layout of the site. -/
def layout (c : Config) : Layout where
  input := c.input
  base := c.base
  pages := c.pages
  output := c.output
  static := c.static
  components := c.components

end Config

end StaticSite

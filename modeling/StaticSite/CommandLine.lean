import StaticSite.Path.Basic

/-!
# The command line

The program has a command `build`, and options before and behind it. An option is written long, as
`--root`, or short, as `-r`; short options may be joined, as in `-vr`. The value of an option is the
next argument, or stands behind the option: `--root=x`, `-r=x` and `-rx` are the same. Nothing may
be given twice. Behind `--` nothing is an option.

`CommandLine.parse` reads the arguments; an `Unread` says why there is nothing to run.
-/

namespace StaticSite

/-- Why a command line cannot be run. -/
inductive Unread where
  /-- An argument is no option and no value. -/
  | unknownArgument
  /-- An argument is no command. -/
  | unknownCommand
  /-- The value of an option is missing or refused. -/
  | badValue
  /-- An option without value is given one. -/
  | unwantedValue
  /-- An option is given twice. -/
  | repeated
  /-- There is no command. -/
  | noCommand
  /-- There are no arguments. -/
  | noArguments
  /-- Help was asked for. -/
  | help (text : String)
  /-- The version was asked for. -/
  | version (text : String)
deriving DecidableEq, Repr

/-- What is said about a command line that cannot be run. -/
def Unread.message : Unread → String
  | unknownArgument => "unexpected argument"
  | unknownCommand => "unrecognized command"
  | badValue => "missing or invalid value of an option"
  | unwantedValue => "unexpected value of an option"
  | repeated => "option given more than once"
  | noCommand => "missing command"
  | noArguments => "missing arguments"
  | help text => text
  | version text => text

/-- What an option is followed by, or does. -/
inductive OptionKind where
  /-- Nothing. -/
  | switch
  /-- A path, which must not be empty. -/
  | path
  /-- `true` or `false`, or nothing, which means `true`. -/
  | truth
  /-- The option shows the help. -/
  | help
  /-- The option shows the version. -/
  | version
deriving DecidableEq, Repr

/-- An option. -/
structure OptionRule where
  /-- The name behind two dashes. -/
  long : String
  /-- The character behind one dash. -/
  short : Option Char := none
  /-- What follows the option. -/
  kind : OptionKind
deriving DecidableEq, Repr

/-- What may stand before a command, or behind it. -/
structure Grammar where
  /-- The options. -/
  options : List OptionRule
  /-- The commands. -/
  commands : List String := []
  /-- The help. -/
  help : String

/-! ## The program -/

/-- The lines of a text, each ended by a line feed. -/
def textOfLines (lines : List String) : String := String.join (lines.map (· ++ "\n"))

/-- The line about the option that shows more messages. -/
def verboseHelp : String := "Print debug messages (cache hits, cycles, dangling links)"

/-- The help of the program. -/
def programHelp : String := textOfLines
  ["static site template compiler - stitch html and markdown components into finished pages",
   "",
   "Usage: quilt [OPTIONS] <COMMAND>",
   "",
   "Commands:",
   "  build  Compile every page into the output directory",
   "  help   Print this message or the help of the given subcommand(s)",
   "",
   "Options:",
   "  -r, --root <ROOT>      Project root directory (default: current directory)",
   "  -o, --output <OUTPUT>  Output directory path (relative to project root)",
   "  -C, --config <CONFIG>  Config file name (default: quilt.toml) [default: quilt.toml]",
   "  -v, --verbose          " ++ verboseHelp,
   "  -h, --help             Print help",
   "  -V, --version          Print version"]

/-- The help of the command `build`. -/
def buildHelp : String := textOfLines
  ["Compile every page into the output directory",
   "",
   "Usage: quilt build [OPTIONS]",
   "",
   "Options:",
   "      --clean [<CLEAN>]  Clean output directory completely before building " ++
     "[possible values: true, false]",
   "      --dev              Development build: inject the live-reload script",
   "      --sequential       Compile pages one after another instead of in parallel",
   "  -v, --verbose          " ++ verboseHelp,
   "  -h, --help             Print help"]

/-- The help of the command `help`. -/
def helpHelp : String := textOfLines
  ["Print this message or the help of the given subcommand(s)",
   "",
   "Usage: quilt help [COMMAND]...",
   "",
   "Arguments:",
   "  [COMMAND]...  Print help for the subcommand(s)"]

/-- The name and the version of the program. -/
def programVersion : String := "quilt 0.1.0\n"

/-- The option that shows more messages, which may stand before and behind the command. -/
def verboseOption : OptionRule := { long := "verbose", short := some 'v', kind := .switch }

/-- The option that shows the help. -/
def helpOption : OptionRule := { long := "help", short := some 'h', kind := .help }

/-- What may stand before the command. -/
def programGrammar : Grammar where
  options :=
    [{ long := "root", short := some 'r', kind := .path },
     { long := "output", short := some 'o', kind := .path },
     { long := "config", short := some 'C', kind := .path },
     verboseOption, helpOption,
     { long := "version", short := some 'V', kind := .version }]
  commands := ["build", "help"]
  help := programHelp

/-- What may stand behind the command `build`. -/
def buildGrammar : Grammar where
  options :=
    [{ long := "clean", kind := .truth }, { long := "dev", kind := .switch },
     { long := "sequential", kind := .switch }, verboseOption, helpOption]
  help := buildHelp

/-! ## Reading arguments -/

/-- The options with their values. -/
abbrev Given := List (String × String)

/-- What was read of the arguments before a command, or behind it. -/
structure ArgReading where
  /-- The options that were read. -/
  given : Given := []
  /-- An option that was read but not taken yet, with its value if that was read. -/
  pending : Option (OptionRule × Option String) := none
deriving Repr

namespace ArgReading

/-- Takes an option with its value. -/
def take (g : Grammar) (given : Given) (o : OptionRule) (value : Option String) :
    Except Unread Given :=
  match o.kind with
  | .help => .error (.help g.help)
  | .version => .error (.version programVersion)
  | kind =>
    let value :=
      match value, kind with
      | none, .path => none
      | none, _ => some "true"
      | some v, _ => some v
    match value with
    | none => .error .badValue
    | some v =>
      if (given.lookup o.long).isSome then .error .repeated
      else
        let fits :=
          match kind with
          | .path => v != ""
          | _ => v == "true" || v == "false"
        if fits then .ok (given ++ [(o.long, v)]) else .error .badValue

/-- Takes the option that was read last, if it was not taken yet. -/
def settle (g : Grammar) (r : ArgReading) : Except Unread Given :=
  match r.pending with
  | none => .ok r.given
  | some (o, value) => take g r.given o value

/-- Whether the last option still waits for a value. -/
def awaits (r : ArgReading) : Bool :=
  match r.pending with
  | some (_, none) => true
  | _ => false

/-- Whether an option has a value. -/
def hasValue (o : OptionRule) : Bool := o.kind == .path || o.kind == .truth

/-- Reads an option, perhaps with a value behind it. An option that has a value is taken only when
the next one is read, and any other at once. -/
def addOption (g : Grammar) (r : ArgReading) (o : OptionRule) (value : Option String) :
    Except Unread ArgReading := do
  let given ← r.settle g
  if hasValue o then
    match value with
    | none => .ok { given, pending := some (o, none) }
    | some v => .ok { given := ← take g given o (some v) }
  else .ok { given := ← take g given o none }

/-- Reads an option behind two dashes. -/
def addLong (g : Grammar) (r : ArgReading) (text : List Char) : Except Unread ArgReading :=
  let name := String.ofList (text.takeWhile (· != '='))
  let value :=
    match text.dropWhile (· != '=') with
    | [] => none
    | _ :: v => some (String.ofList v)
  match g.options.find? (·.long == name) with
  | none => .error .unknownArgument
  | some o => if value.isSome && !hasValue o then .error .unwantedValue else r.addOption g o value

/-- Reads options behind one dash. -/
def addShort (g : Grammar) (r : ArgReading) : List Char → Except Unread ArgReading
  | [] => .ok r
  | c :: s =>
    match g.options.find? (·.short == some c) with
    | none => .error .unknownArgument
    | some o =>
      if hasValue o then
        let value :=
          match s with
          | [] => none
          | '=' :: v => some (String.ofList v)
          | v => some (String.ofList v)
        r.addOption g o value
      else do
        let r ← r.addOption g o none
        r.addShort g s

/-- The error for an argument that is no option. -/
def stray (g : Grammar) (afterMark : Bool) (arg : String) : Unread :=
  if g.commands.isEmpty || (afterMark && g.commands.contains arg) then .unknownArgument
  else .unknownCommand

/-- Reads arguments up to a command; the command comes with the arguments behind it. -/
def readArgs (g : Grammar) (r : ArgReading) :
    List String → Except Unread (ArgReading × Option (String × List String))
  | [] => .ok (r, none)
  | arg :: args =>
    if !r.awaits && g.commands.contains arg then .ok (r, some (arg, args))
    else
      match arg.toList with
      | ['-', '-'] =>
        match args with
        | [] => .ok (r, none)
        | next :: _ => .error (stray g true next)
      | '-' :: '-' :: text => do
        let r ← r.addLong g text
        readArgs g r args
      | '-' :: c :: text => do
        let r ← r.addShort g (c :: text)
        readArgs g r args
      | _ =>
        match r.pending with
        | some (o, none) => readArgs g { r with pending := some (o, some arg) } args
        | _ => .error (stray g false arg)

end ArgReading

/-- What is asked of the program. -/
structure CommandLine where
  /-- The folder of the project. -/
  root : Option Path := none
  /-- The folder that pages are written to. -/
  output : Option Path := none
  /-- The file that describes the project. -/
  config : Path := ⟨"quilt.toml"⟩
  /-- Whether details are logged. -/
  verbose : Bool := false
  /-- Whether the output folder is emptied first. -/
  clean : Option Bool := none
  /-- Whether pages load the script that reloads them. -/
  dev : Bool := false
  /-- Whether pages are compiled one after the other. -/
  sequential : Bool := false
deriving DecidableEq, Repr

namespace CommandLine

/-- The help that the arguments behind `help` ask for. -/
def helpFor : List String → Unread
  | [] => .help programHelp
  | ["build"] => .help buildHelp
  | ["help"] => .help helpHelp
  | _ => .unknownCommand

/-- The command line with the options before the command `build` and those behind it. -/
def ofGiven (before behind : Given) : CommandLine where
  root := (before.lookup "root").map Path.mk
  output := (before.lookup "output").map Path.mk
  config := ⟨(before.lookup "config").getD "quilt.toml"⟩
  verbose := (before.lookup "verbose").isSome || (behind.lookup "verbose").isSome
  clean := (behind.lookup "clean").map (· == "true")
  dev := (behind.lookup "dev").isSome
  sequential := (behind.lookup "sequential").isSome

/-- Reads the arguments of the program. What stands behind the command is judged first. -/
def parse (args : List String) : Except Unread CommandLine := do
  let (before, command) ← ArgReading.readArgs programGrammar {} args
  match command with
  | none =>
    let given ← before.settle programGrammar
    .error (if given.isEmpty then .noArguments else .noCommand)
  | some ("build", args) =>
    let (behind, _) ← ArgReading.readArgs buildGrammar {} args
    let behind ← behind.settle buildGrammar
    .ok (ofGiven (← before.settle programGrammar) behind)
  | some (_, args) => .error (helpFor args)

end CommandLine

end StaticSite

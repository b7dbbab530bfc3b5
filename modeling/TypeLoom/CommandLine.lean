import TypeLoom.Plugins.Registry
import TypeLoom.TypeScript.Syntax

/-!
# The command line

`check` runs dry, `generate` writes. Arguments are read from left to right and the first one that
asks for help or the version, or that does not fit, decides. A flag may be given once before the
command and once after it; the configuration file is named after the command.
-/

namespace TypeLoom.CommandLine

open Pipeline Files

inductive Command where
  | check
  | generate
  deriving DecidableEq, Inhabited, Repr

/-- What arguments ask for. -/
inductive Request where
  | overview
  | help (command : Command)
  | version
  | run (command : Command) (config : Path)
  | invalid
  deriving DecidableEq, Inhabited, Repr

def Command.ofName? : String → Option Command
  | "check" => some .check
  | "generate" => some .generate
  | _ => none

/-- An argument by its form. -/
inductive Argument where
  | separator
  | long (name : String) (value : Option String)
  | short (letters : List Char)
  | word (text : String)
  deriving DecidableEq, Inhabited, Repr

def Argument.read (s : String) : Argument :=
  match s.toList with
  | ['-', '-'] => .separator
  | '-' :: '-' :: cs =>
    let value := cs.dropWhile (· != '=')
    .long (String.ofList (cs.takeWhile (· != '=')))
      (if value.isEmpty then none else some (String.ofList (value.drop 1)))
  | '-' :: c :: cs => .short (c :: cs)
  | _ => .word s

/-- What has been read after a command. -/
structure Options where
  verbose : Bool
  config : Option Path
  deriving DecidableEq, Inhabited, Repr

/-- Takes the verbose flag, which may stand once. -/
def Options.withVerbose? (o : Options) : Option Options :=
  if o.verbose then none else some { o with verbose := true }

/-- Takes the path of the configuration, which may stand once and is not empty. -/
def Options.withConfig? (o : Options) (path : String) : Option Options :=
  if o.config.isSome || path.isEmpty then none else some { o with config := some ⟨path⟩ }

/-- What a group of short flags after a command leads to. -/
inductive ShortOutcome where
  | options (o : Options)
  | awaitsConfig (o : Options)
  | help
  | invalid
  deriving DecidableEq, Inhabited, Repr

def readShort (o : Options) : List Char → ShortOutcome
  | [] => .options o
  | 'v' :: cs =>
    match o.withVerbose? with
    | some o => readShort o cs
    | none => .invalid
  | 'h' :: _ => .help
  | 'c' :: cs =>
    let value := if cs.head? == some '=' then cs.drop 1 else cs
    if cs.isEmpty then .awaitsConfig o
    else match o.withConfig? (String.ofList value) with
      | some o => .options o
      | none => .invalid
  | _ :: _ => .invalid

/-- Reads what follows a command. `awaiting` holds after an option that lacks its value. -/
def readOptions (command : Command) (o : Options) (awaiting : Bool) : List String → Request
  | [] => if awaiting then .invalid else .run command (o.config.getD Configuration.defaultFile)
  | arg :: args =>
    match Argument.read arg, awaiting with
    | .word w, true =>
      match o.withConfig? w with
      | some o => readOptions command o false args
      | none => .invalid
    | _, true => .invalid
    | .word _, false => .invalid
    | .separator, false =>
      if args.isEmpty then .run command (o.config.getD Configuration.defaultFile) else .invalid
    | .long "verbose" none, false =>
      match o.withVerbose? with
      | some o => readOptions command o false args
      | none => .invalid
    | .long "help" none, false => .help command
    | .long "config" none, false => readOptions command o true args
    | .long "config" (some value), false =>
      match o.withConfig? value with
      | some o => readOptions command o false args
      | none => .invalid
    | .long _ _, false => .invalid
    | .short letters, false =>
      match readShort o letters with
      | .options o => readOptions command o false args
      | .awaitsConfig o => readOptions command o true args
      | .help => .help command
      | .invalid => .invalid

/-- Reads short flags before a command: either a request, or whether the verbose flag stands. -/
def readLeadingShort (verbose : Bool) : List Char → Except Request Bool
  | [] => .ok verbose
  | 'v' :: cs => if verbose then .error .invalid else readLeadingShort true cs
  | 'h' :: _ => .error .overview
  | 'V' :: _ => .error .version
  | _ :: _ => .error .invalid

/-- What the command `help` shows. -/
def readHelp : List String → Request
  | [] => .overview
  | [name] =>
    match Command.ofName? name with
    | some command => .help command
    | none => .invalid
  | _ => .invalid

/-- Reads arguments. -/
def read (verbose : Bool) : List String → Request
  | [] => .overview
  | arg :: args =>
    match Argument.read arg with
    | .separator => if args.isEmpty then .overview else .invalid
    | .long "verbose" none => if verbose then .invalid else read true args
    | .long "help" none => .overview
    | .long "version" none => .version
    | .long _ _ => .invalid
    | .short letters =>
      match readLeadingShort verbose letters with
      | .ok verbose => read verbose args
      | .error request => request
    | .word "help" => readHelp args
    | .word w =>
      match Command.ofName? w with
      | some command => readOptions command ⟨false, none⟩ false args
      | none => .invalid

/-- What a program leaves behind: its exit code and what it wrote. -/
structure Outcome where
  exit : Nat
  output : String
  errors : String
  deriving DecidableEq, Inhabited, Repr

def overviewText : String :=
  "Usage: graphql-typegen [OPTIONS] [COMMAND]\n\nCommands:\n" ++
    "  check     Loads, validates and emits declarations in memory without writing any files\n" ++
    "  generate  Generates TypeScript declarations and updates resolver modules\n" ++
    "  help      Print this message or the help of the given subcommand(s)\n\nOptions:\n" ++
    "  -v, --verbose  Enable verbose output.\n" ++
    "  -h, --help     Print help\n" ++
    "  -V, --version  Print version\n"

def Command.name : Command → String
  | .check => "check"
  | .generate => "generate"

def Command.summary : Command → String
  | .check => "Loads, validates and emits declarations in memory without writing any files"
  | .generate => "Generates TypeScript declarations and updates resolver modules"

def Command.help (c : Command) : String :=
  c.summary ++ "\n\nUsage: graphql-typegen " ++ c.name ++ " [OPTIONS]\n\nOptions:\n" ++
    "  -c, --config <CONFIG>  Path to the generator's TOML configuration file. Relative paths " ++
    "inside it are resolved against its directory. [default: graphql-typegen.toml]\n" ++
    "  -v, --verbose          Enable verbose output.\n" ++
    "  -h, --help             Print help\n"

def versionText : String := "graphql-typegen 0.1.0\n"

def success (text : String) : Outcome := ⟨0, "✓ " ++ text ++ "\n", ""⟩

def failure (f : Failure) : Outcome := ⟨1, "", "✗ " ++ f.message ++ "\n"⟩

/-- What is told of a run that succeeds. -/
def Command.success (c : Command) (config : Configuration) (s : Summary) : Outcome :=
  CommandLine.success <| match c with
  | .check => s!"Schema checked successfully ({config.plugins.length} plugins configured)."
  | .generate =>
    "Generation completed successfully:\n" ++
      s!"  * Wrote {s.writtenFiles.length} generated files.\n" ++
      s!"  * Updated {s.mergedModules.length} resolver modules."

section

variable {m : Type → Type} [Monad m] [FileAccess m]

/-- Loads a configuration file. -/
def loadConfiguration (p : Path) : m (Except Failure Configuration) := do
  match ← (Configuration.load p).run with
  | .ok config => return .ok config
  | .error problem => return .error (.configuration p problem)

def Command.run [ResolverModule.Parser] (c : Command) (p : Path) : m Outcome := do
  match ← loadConfiguration p with
  | .error e => return failure e
  | .ok config =>
    match ← Plugins.generate config (c == .check) with
    | .error e => return failure e
    | .ok summary => return c.success config summary

/-- Runs the program on its arguments. -/
def run [ResolverModule.Parser] (args : List String) : m Outcome := do
  match read false args with
  | .overview => return ⟨0, overviewText, ""⟩
  | .help c => return ⟨0, c.help, ""⟩
  | .version => return ⟨0, versionText, ""⟩
  | .invalid =>
    return ⟨2, "", "error: invalid arguments\n\nFor more information, try '--help'.\n"⟩
  | .run c config => c.run config

end

end TypeLoom.CommandLine

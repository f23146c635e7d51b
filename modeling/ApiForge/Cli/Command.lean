import ApiForge.Cli.Arguments
import ApiForge.Config.Load

/-!
# Commands

* `Command` lists what the program can do.
* `Invocation.parse` reads the arguments of the program.
-/

namespace ApiForge.Cli

/-- What the program is to do. -/
inductive Command where
  /-- Compile descriptions to files. -/
  | generate (specs : List String) (output : String) (scheme : Option OutputScheme) (options : ConfigOptions)
      (format dryRun : Bool)
  /-- List the routes of a description. -/
  | routes (spec : String)
  /-- Compile descriptions without writing. -/
  | check (specs : List String) (options : ConfigOptions)
  /-- Compare the two ways to treat required fields. -/
  | diff (spec : String) (options : ConfigOptions)

/-- The arguments of the program. -/
structure Invocation where
  verbose : Bool
  command : Command

/-! ## Options -/

/-- The option for more messages, which every command has. -/
def verboseOption : CliOption := ⟨"verbose", some 'v', .flag⟩

/-- The option for help. -/
def helpOption : CliOption := ⟨"help", some 'h', .help⟩

/-- The options in front of a command. -/
def programOptions : List CliOption := [verboseOption, helpOption, ⟨"version", some 'V', .version⟩]

/-- A path is any text but the empty one. -/
def isPath (s : String) : Bool := !s.isEmpty

/-- The option for one description. -/
def specOption : CliOption := ⟨"spec", some 's', .single isPath⟩

/-- The option for descriptions. -/
def specsOption : CliOption := ⟨"spec", some 's', .many isPath⟩

/-- The options for settings. -/
def configOptions : List CliOption := [
  ⟨"presence", none, .single fun s => (Presence.ofName? s).isSome⟩,
  ⟨"import-prefix", none, .single fun _ => true⟩,
  ⟨"config", none, .single isPath⟩]

/-- The names of the commands. -/
def commandNames : List String := ["generate", "routes", "check", "diff", "help"]

/-- The options of a command. -/
def optionsOf (command : String) : List CliOption :=
  [verboseOption, helpOption] ++
    (match command with
      | "generate" => [specsOption, ⟨"output", some 'o', .single isPath⟩,
          ⟨"scheme", none, .single fun s => (OutputScheme.ofName? s).isSome⟩, ⟨"fmt", none, .flag⟩,
          ⟨"dry-run", none, .flag⟩] ++ configOptions
      | "routes" => [specOption]
      | "check" => specsOption :: configOptions
      | _ => specOption :: configOptions)

/-- What is said about the settings. -/
def configOptionsOf (m : Matches) : ConfigOptions where
  presence := (m.value? "presence").bind Presence.ofName?
  importRoot := m.value? "import-prefix"
  file := m.value? "config"

/-- The command of a name with its options. -/
def commandOf (name spec : String) (m : Matches) : Command :=
  match name with
  | "generate" => .generate (m.values "spec") ((m.value? "output").getD "generated")
      ((m.value? "scheme").bind OutputScheme.ofName?) (configOptionsOf m) (m.has "fmt") (m.has "dry-run")
  | "routes" => .routes spec
  | "check" => .check (m.values "spec") (configOptionsOf m)
  | _ => .diff spec (configOptionsOf m)

/-- What is asked for behind `help`: nothing, or the name of a command. -/
def parseHelp : List String → UsageError
  | [] => .help
  | [name] => if commandNames.contains name then .help else .unknownCommand
  | _ => .unknownCommand

namespace Invocation

/-- Reads the arguments behind the name of a command. -/
def parseCommand (name : String) (args : List String) : Except UsageError (Bool × Command) := do
  let (s, _) ← Scan.read (optionsOf name) [] {} args
  let m ← s.finish
  match m.value? "spec" with
  | none => throw .missingOption
  | some spec => return (m.has "verbose", commandOf name spec m)

/-- Reads the arguments of the program. -/
def parse (args : List String) : Except UsageError Invocation := do
  let (s, command) ← Scan.read programOptions commandNames {} args
  match command with
  | some ("help", rest) => throw (parseHelp rest)
  | some (name, rest) =>
    let (verbose, command) ← parseCommand name rest
    return ⟨verbose || s.found.has "verbose", command⟩
  | none =>
    let m ← s.finish
    throw (if m.isEmpty then .helpForMissingCommand else .missingCommand)

end Invocation

end ApiForge.Cli

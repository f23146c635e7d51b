import ApiForge.Config
import ApiForge.Files.Path
import ApiForge.Files.Task
import ApiForge.Text.Blank
import ApiForge.Toml.Parser

/-!
# Loading settings

Settings are read from a file, either one that the user names or one beside the first description, and what the user
says on the command line goes before them.

* `Config.ofText?` reads settings.
* `Config.load` reads a file of settings, `Config.resolve` finds it.
* `Config.effective` gives the settings of a run.
-/

namespace ApiForge

/-- Why there are no settings. -/
inductive ConfigError where
  | unreadable (path : String) (cause : FileError)
  | malformed (path : String)
  | emptyImportRoot (path : String)
  | missing (path : String)
  | emptyImportOption
  deriving DecidableEq

/-- The words for a failure. -/
def ConfigError.message : ConfigError → String
  | unreadable path _ => s!"Failed to read compiler config: {path}"
  | malformed path => s!"Failed to parse compiler config: {path}"
  | emptyImportRoot path => s!"Invalid compiler config {path}: import_prefix must not be empty"
  | missing path => s!"Config file not found: {path}"
  | emptyImportOption => "--import-prefix must not be empty"

/-- What the user says about the settings on the command line. -/
structure ConfigOptions where
  presence : Option Presence := none
  importRoot : Option String := none
  file : Option String := none

namespace Config

/-- A word: a text, or a table with nothing under the word. -/
def word? : Toml → Option String
  | .text s => some s
  | .table _ [(k, .table _ [])] => some k
  | .table _ [(k, .list [])] => some k
  | _ => none

/-- Takes up one setting; nothing when there is no such setting or its value makes no sense. -/
def withEntry (c : Config) (entry : String × Toml) : Option Config :=
  match entry with
  | ("presence", v) => ((word? v).bind Presence.ofName?).map fun p => { c with presence := p }
  | ("output", v) => ((word? v).bind OutputScheme.ofName?).map fun o => { c with output := o }
  | ("import_prefix", .text s) => some { c with importRoot := s }
  | _ => none

/-- The settings in a text. -/
def ofText? (text : String) : Option Config := do
  let entries ← Toml.parse? text
  entries.foldlM withEntry {}

/-- The settings in the text of a file. -/
def ofFile (path text : String) : Except ConfigError Config :=
  match ofText? text with
  | none => .error (.malformed path)
  | some c => if (Text.trim c.importRoot).isEmpty then .error (.emptyImportRoot path) else .ok c

/-- Reads a file of settings, if there is one. -/
def load (path : String) : Task (Except ConfigError (Option Config)) := do
  if ← Task.existsAt path then
    match ← Task.textOf path with
    | .error e => return .error (.unreadable path e)
    | .ok text => return (ofFile path text).map some
  else return .ok none

/-- The name of the file beside a description. -/
def fileName : String := "brrtgen.toml"

/-- The path of the settings: the given one, or the one beside a description if it is there. -/
def resolve (given : Option String) (description : String) : Task (Option String) := do
  match given, Files.Path.parent? description with
  | some path, _ => return some path
  | none, none => return none
  | none, some parent =>
    let candidate := Files.Path.join parent fileName
    return if ← Task.existsAt candidate then some candidate else none

/-- Puts what the user says before the settings. -/
def override (c : Config) (options : ConfigOptions) (scheme : Option OutputScheme) : Except ConfigError Config :=
  let c := { c with presence := options.presence.getD c.presence, output := scheme.getD c.output }
  match options.importRoot with
  | none => .ok c
  | some root => if (Text.trim root).isEmpty then .error .emptyImportOption else .ok { c with importRoot := root }

/-- The settings of a run whose first description is given. -/
def effective (options : ConfigOptions) (scheme : Option OutputScheme) (description : String) :
    Task (Except ConfigError Config) := do
  let found ← match options.file with
    | some path => Task.existsAt path
    | none => pure true
  if !found then return .error (.missing (options.file.getD ""))
  match ← resolve options.file description with
  | none => return override {} options scheme
  | some path =>
    match ← load path with
    | .error e => return .error e
    | .ok c => return override (c.getD {}) options scheme

end Config

end ApiForge

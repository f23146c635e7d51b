import ApiForge.Cli.Batch
import ApiForge.Cli.Command
import ApiForge.Comparison

/-!
# Executing commands

* `Command.execute` is the task of a command; its result tells whether everything went well.
-/

namespace ApiForge.Cli

/-- Why a command stops. -/
inductive CliError where
  | config (cause : ConfigError)
  | load (cause : LoadError)
  | compile (cause : CompileError)

/-- The words for a failure. -/
def CliError.message : CliError → String
  | config e => e.message
  | load e => e.message
  | compile e => e.message

/-- Prints warnings. -/
def printDiagnostics : List Diagnostic → Task Unit
  | [] => pure ()
  | d :: ds => do
    Task.caution (d.text ++ "\n")
    printDiagnostics ds

/-- Prints the results of a batch in order, where `line` describes a file that has been generated. -/
def printResults (line : String → Generated → String) : List (String × Except BatchError Generated) → Task Unit
  | [] => pure ()
  | (spec, .ok g) :: rest => do
    Task.say (line spec g ++ "\n")
    printDiagnostics g.diagnostics
    printResults line rest
  | (spec, .error e) :: rest => do
    Task.say s!"FAILED  {spec}: {e.report}\n"
    printResults line rest

/-- The line for a file that has been or would be written. -/
def writtenLine (dryRun : Bool) (spec : String) (g : Generated) : String :=
  let verb := if dryRun then "would write" else "wrote"
  s!"ok      {spec} -> {verb} {g.output}"

/-- The line for a description that has been checked. -/
def checkedLine (spec : String) (g : Generated) : String := s!"ok      {spec} ({g.diagnostics.length} warning(s))"

/-- The line for a whole batch. -/
def summaryLine (r : BatchReport) : String :=
  let ending := if r.cancelled then ", cancelled" else ""
  s!"{r.succeeded} succeeded, {r.failed} failed{ending}\n"

/-- Runs a batch under the settings of a run, and then what is to be done with its report. -/
def withBatch (options : ConfigOptions) (scheme : Option OutputScheme) (specs : List String)
    (batch : Config → BatchOptions) (finish : BatchReport → Task Unit) : Task (Except CliError Bool) := do
  match ← Config.effective options scheme (specs.headD "") with
  | .error e => return .error (.config e)
  | .ok config =>
    let report ← runBatch config (batch config) specs {}
    finish report
    return .ok report.isSuccess

/-- Prints a comparison. -/
def printComparison (c : LineDiff.Comparison) : Task Unit :=
  if c.isIdentical then Task.say s!"{c.left} and {c.right} are identical\n"
  else Task.say (c.unified ++ s!"{c.insertions} insertion(s), {c.deletions} deletion(s)\n")

/-- The task of a command. -/
def Command.execute : Command → Task (Except CliError Bool)
  | .generate specs output scheme options format dryRun =>
    withBatch options scheme specs (fun config => ⟨output, config.output, format, dryRun⟩) fun report => do
      printResults (writtenLine dryRun) report.files
      Task.say (summaryLine report)
  | .check specs options =>
    withBatch options none specs (fun config => { scheme := config.output }) fun report =>
      printResults checkedLine report.files
  | .routes spec => do
    match ← Description.load spec with
    | .error e => return .error (.load e)
    | .ok d =>
      match compile {} d with
      | .error e => return .error (.compile e)
      | .ok c =>
        Task.say (String.join (c.routes.listing.map (· ++ "\n")))
        return .ok true
  | .diff spec options => do
    match ← Config.effective options none spec with
    | .error e => return .error (.config e)
    | .ok config =>
      match ← Description.load spec with
      | .error e => return .error (.load e)
      | .ok d =>
        match compareConfigs { config with presence := .standard } { config with presence := .explicit } d with
        | .error e => return .error (.compile e.cause)
        | .ok c =>
          printComparison c
          return .ok true

end ApiForge.Cli

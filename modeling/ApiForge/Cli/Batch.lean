import ApiForge.Code.Printer
import ApiForge.Compilation
import ApiForge.Description.Load

/-!
# Batches

Descriptions are compiled one after another. One that fails does not stop the others; a request to stop is heard before
each of them.

* `outputPath` says where the source of a description goes.
* `Batch.run` compiles descriptions.
-/

namespace ApiForge.Cli

/-- Where the source under a name goes. -/
def outputPath (directory slug : String) : OutputScheme → String
  | .flat => Files.Path.join directory (slug ++ ".rs")
  | .nested => Files.Path.join (Files.Path.join directory slug) "mod.rs"

/-- What is done with the results of a batch. -/
structure BatchOptions where
  directory : String := ""
  scheme : OutputScheme
  format : Bool := false
  dryRun : Bool := true

/-- Why a description gives no file. -/
inductive BatchError where
  | load (cause : LoadError)
  | compile (cause : CompileError)
  | directory (path : String) (cause : FileError)
  | write (path : String) (cause : FileError)
  | format (path : String) (cause : FormatError)

/-- The words for a failure, with what lies behind it. -/
def BatchError.report : BatchError → String
  | load e => e.report
  | compile e => e.message
  | directory path e => s!"Failed to create directory {path}: {e.message}"
  | write path e => s!"Failed to write {path}: {e.message}"
  | format _ (.missing e) => e.message
  | format path (.failed program) => s!"{program} failed on {path}"

/-- What a description gives. -/
structure Generated where
  output : String
  source : String
  diagnostics : List Diagnostic

/-- The results of a batch. -/
structure BatchReport where
  files : List (String × Except BatchError Generated) := []
  cancelled : Bool := false

namespace BatchReport

/-- How many descriptions have given a file. -/
def succeeded (r : BatchReport) : Nat := (r.files.filter (·.2.isOk)).length

/-- How many descriptions have failed. -/
def failed (r : BatchReport) : Nat := r.files.length - r.succeeded

/-- Whether all descriptions have given a file. -/
def isSuccess (r : BatchReport) : Bool := !r.cancelled && r.failed == 0

end BatchReport

/-- Writes the source of a description and formats it if this is wanted. -/
def writeSource (options : BatchOptions) (path source : String) : Task (Except BatchError Unit) := do
  let made ← match Files.Path.parent? path with
    | some parent => do
      match ← Task.directory parent with
      | .ok () => pure (Except.ok ())
      | .error e => pure (.error (BatchError.directory parent e))
    | none => pure (.ok ())
  match made with
  | .error e => return .error e
  | .ok () =>
    match ← Task.store path source with
    | .error e => return .error (.write path e)
    | .ok () =>
      if options.format then
        match ← Task.formatted path with
        | .error e => return .error (.format path e)
        | .ok () => return .ok ()
      else return .ok ()

/-- Compiles one description. -/
def generateFile (config : Config) (options : BatchOptions) (spec : String) : Task (Except BatchError Generated) := do
  match ← Description.load spec with
  | .error e => return .error (.load e)
  | .ok d =>
    match compile config d with
    | .error e => return .error (.compile e)
    | .ok c =>
      let path := outputPath options.directory d.slug options.scheme
      let source := c.file.render
      let generated : Generated := ⟨path, source, c.diagnostics⟩
      if options.dryRun then return .ok generated
      else return (← writeSource options path source).map fun _ => generated

/-- Compiles descriptions in order, behind those in the report. -/
def runBatch (config : Config) (options : BatchOptions) : List String → BatchReport → Task BatchReport
  | [], report => pure report
  | spec :: specs, report => do
    if ← Task.isCancelled then return { report with cancelled := true }
    let result ← generateFile config options spec
    runBatch config options specs { report with files := report.files ++ [(spec, result)] }

end ApiForge.Cli

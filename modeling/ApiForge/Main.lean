import ApiForge.Cli.Execute

/-!
# The program

The operating system answers the requests of a task. No formatter can be started from here, so a request to format a
file is refused.
-/

namespace ApiForge.Cli

/-- The refusal behind an error of the system. -/
def fileError : IO.Error → FileError
  | .noFileOrDirectory .. => .notFound
  | .alreadyExists .. => .alreadyThere
  | .inappropriateType _ code details =>
    if code == 20 then .notDirectory else if code == 21 then .isDirectory else .other details
  | e => .other (toString e)

/-- The answer to a request. -/
def request {α : Type} (action : IO α) : IO (Except FileError α) :=
  try
    return .ok (← action)
  catch e =>
    return .error (fileError e)

/-- Whether something can be opened at a path. -/
def isThere (path : String) : IO Bool := do
  return (← request (IO.FS.Handle.mk path .read)).isOk

/-- Runs a task on the files of the system. -/
def perform {α : Type} : Task α → IO α
  | .done a => pure a
  | .probe path k => do perform (k (← isThere path))
  | .read path k => do perform (k (← request (IO.FS.readFile path)))
  | .makeDirectory path k => do perform (k (← request (if path.isEmpty then pure () else IO.FS.createDirAll path)))
  | .write path text k => do perform (k (← request (IO.FS.writeFile path text)))
  | .format _ k => perform (k (.error (.missing .notFound)))
  | .print text k => do
    IO.print text
    perform k
  | .warn text k => do
    IO.eprint text
    perform k
  | .cancelled k => perform (k false)
  | @Task.loop _ _ _ _ round start k => do perform (k (← repeatM (fun s => perform (round s)) start))

/-- How the program is called. -/
def usage : String := String.intercalate "\n" [
  "Usage: brrtgen [-v] <generate|routes|check|diff> --spec <PATH>... [options]",
  "  generate  -o, --output <DIR>  --scheme <flat|nested>  --fmt  --dry-run",
  "  generate, check, diff  --presence <standard|explicit>  --import-prefix <PATH>  --config <FILE>",
  ""]

/-- What is wrong with the arguments. -/
def UsageError.message : UsageError → String
  | help | helpForMissingCommand => usage
  | version => "brrtgen 0.1.0-alpha.1\n"
  | missingCommand => "error: a command is required\n"
  | unknownCommand => "error: unknown command\n"
  | missingOption => "error: --spec is required\n"
  | unknownArgument => "error: unexpected argument\n"
  | invalidValue => "error: invalid or missing value\n"
  | repeatedOption => "error: an option is given twice\n"
  | unwantedValue => "error: a flag has no value\n"

/-- Whether the arguments ask for a text that is printed like a result. -/
def UsageError.isRequest : UsageError → Bool
  | help | version => true
  | _ => false

end ApiForge.Cli

open ApiForge.Cli in
/-- Runs a command; the result is zero when everything went well. -/
def main (args : List String) : IO UInt32 := do
  match Invocation.parse args with
  | .error e =>
    if e.isRequest then
      IO.print e.message
      return 0
    else
      IO.eprint e.message
      return 2
  | .ok invocation =>
    match ← perform invocation.command.execute with
    | .ok true => return 0
    | .ok false => return 1
    | .error e =>
      IO.eprintln ("Error: " ++ e.message)
      return 1

/-!
# Tasks that work on files

A task is a program that reads and writes files, one request after another. It is data: it says which request comes
first and how it goes on for every answer, and `Workspace` or the operating system gives the answers. A loop may go round
for ever: how often it does depends on the answers.
-/

namespace ApiForge

/-- Why a request on a file is refused. -/
inductive FileError where
  | notFound
  | alreadyThere
  | notDirectory
  | isDirectory
  /-- Any other refusal, in the words of the system. -/
  | other (text : String)
  deriving DecidableEq, Repr

/-- The words for a refusal. -/
def FileError.message : FileError → String
  | notFound => "No such file or directory (os error 2)"
  | alreadyThere => "File exists (os error 17)"
  | notDirectory => "Not a directory (os error 20)"
  | isDirectory => "Is a directory (os error 21)"
  | other text => text

/-- Why a file is not formatted. -/
inductive FormatError where
  /-- The program cannot be started. -/
  | missing (cause : FileError)
  /-- The program of this name reports a failure. -/
  | failed (program : String)

/-- A task with a result. -/
inductive Task : Type → Type 1 where
  | done {α : Type} (result : α) : Task α
  /-- Asks whether there is something at a path. -/
  | probe {α : Type} (path : String) (next : Bool → Task α) : Task α
  | read {α : Type} (path : String) (next : Except FileError String → Task α) : Task α
  /-- Makes a directory and those above it. -/
  | makeDirectory {α : Type} (path : String) (next : Except FileError Unit → Task α) : Task α
  | write {α : Type} (path text : String) (next : Except FileError Unit → Task α) : Task α
  /-- Lets the formatter work on a file. -/
  | format {α : Type} (path : String) (next : Except FormatError Unit → Task α) : Task α
  | print {α : Type} (text : String) (next : Task α) : Task α
  | warn {α : Type} (text : String) (next : Task α) : Task α
  /-- Asks whether the user has asked to stop. -/
  | cancelled {α : Type} (next : Bool → Task α) : Task α
  /-- Goes round from state to state, as long as a round gives a state, and then on with what the last round gives. -/
  | loop {σ γ α : Type} [Nonempty γ] (round : σ → Task (σ ⊕ γ)) (start : σ) (next : γ → Task α) : Task α

namespace Task

variable {α β : Type}

/-- One task after another. -/
def andThen : Task α → (α → Task β) → Task β
  | done a, f => f a
  | probe p k, f => probe p fun b => (k b).andThen f
  | read p k, f => read p fun r => (k r).andThen f
  | makeDirectory p k, f => makeDirectory p fun r => (k r).andThen f
  | write p t k, f => write p t fun r => (k r).andThen f
  | format p k, f => format p fun r => (k r).andThen f
  | print t k, f => print t (k.andThen f)
  | warn t k, f => warn t (k.andThen f)
  | cancelled k, f => cancelled fun b => (k b).andThen f
  | loop round start k, f => loop round start fun c => (k c).andThen f

instance : Monad Task where
  pure := done
  bind := andThen

/-- Asks whether there is something at a path. -/
def existsAt (path : String) : Task Bool := probe path done

/-- The text of a file. -/
def textOf (path : String) : Task (Except FileError String) := read path done

/-- Makes a directory and those above it. -/
def directory (path : String) : Task (Except FileError Unit) := makeDirectory path done

/-- Writes a file. -/
def store (path text : String) : Task (Except FileError Unit) := write path text done

/-- Formats a file. -/
def formatted (path : String) : Task (Except FormatError Unit) := format path done

/-- Prints a text. -/
def say (text : String) : Task Unit := print text (done ())

/-- Prints a warning. -/
def caution (text : String) : Task Unit := warn text (done ())

/-- Whether the user has asked to stop. -/
def isCancelled : Task Bool := cancelled done

/-- Goes round from state to state until a round gives a result. -/
def repeated {σ γ : Type} [Nonempty γ] (round : σ → Task (σ ⊕ γ)) (start : σ) : Task γ := loop round start done

end Task

end ApiForge

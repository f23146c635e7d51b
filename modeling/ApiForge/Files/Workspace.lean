import ApiForge.Files.Path
import ApiForge.Files.Task
import ApiForge.Text.Basic

/-!
# Workspaces

A workspace is a tree of directories and files with a root and a working directory. A path that begins with a slash is
followed from the root, and any other path from the working directory; the root is its own parent. There are no links
between directories, and nothing is refused for lack of a permission. A workspace answers the requests of a task.

* `Workspace.locate` follows a path, `Workspace.read` and `Workspace.write` work on files.
* `Workspace.run` runs a task.
* `Workspace.changes` lists what a task has written.
-/

namespace ApiForge

open Text

/-- The names on the way from the root to a file. -/
abbrev Trail := List String

/-- What the formatter does. -/
inductive Formatter where
  | succeeds
  | fails (program : String)
  | missing
  deriving Inhabited

/-- A tree of directories and files, and what a task has printed. -/
structure Workspace where
  files : List (Trail × String) := []
  /-- The directories other than the working directory and those above it. -/
  directories : List Trail := []
  /-- The working directory. -/
  current : Trail := []
  formatter : Formatter := .missing
  cancelled : Bool := false
  output : String := ""
  warnings : String := ""
  deriving Inhabited

namespace Workspace

/-- The text of the file at a location. -/
def file? (w : Workspace) (l : Trail) : Option String := (w.files.find? (·.1 == l)).map (·.2)

/-- Whether a location is a directory. -/
def isDirectory (w : Workspace) (l : Trail) : Bool := l.isPrefixOf w.current || w.directories.contains l

/-- Goes down one step from a directory; the error says why this is not possible. -/
def enter (w : Workspace) (l : Trail) : Except FileError Unit :=
  if w.isDirectory l then .ok () else if (w.file? l).isSome then .error .notDirectory else .error .notFound

/-- Follows the parts of a path from a location. -/
def follow (w : Workspace) : Trail → List String → Except FileError Trail
  | l, [] => .ok l
  | l, part :: rest =>
    match w.enter l with
    | .error e => .error e
    | .ok () =>
      if part == "." then w.follow l rest
      else if part == ".." then w.follow l.dropLast rest
      else w.follow (l ++ [part]) rest

/-- Where a path begins. -/
def start (w : Workspace) (path : String) : Trail := if Files.Path.isAbsolute path then [] else w.current

/-- The location of a path. A path with a slash at its end leads to a directory. -/
def locate (w : Workspace) (path : String) : Except FileError Trail :=
  if path.isEmpty then .error .notFound
  else
    let parts := split '/' path
    let trailing : List String := if parts.getLast? == some "" then ["."] else []
    w.follow (w.start path) (parts.filter (· != "") ++ trailing)

/-- Whether there is something at a path. -/
def existsAt (w : Workspace) (path : String) : Bool :=
  match w.locate path with
  | .ok l => w.isDirectory l || (w.file? l).isSome
  | .error _ => false

/-- The text of a file. -/
def read (w : Workspace) (path : String) : Except FileError String :=
  match w.locate path with
  | .error e => .error e
  | .ok l =>
    if w.isDirectory l then .error .isDirectory
    else match w.file? l with
      | some text => .ok text
      | none => .error .notFound

/-- Puts a text at a location. -/
def put (w : Workspace) (l : Trail) (text : String) : Workspace :=
  if (w.file? l).isSome then { w with files := w.files.map fun f => if f.1 == l then (l, text) else f }
  else { w with files := w.files ++ [(l, text)] }

/-- Writes a file into a directory that exists. -/
def write (w : Workspace) (path text : String) : Except FileError Workspace :=
  match w.locate path with
  | .error e => .error e
  | .ok l =>
    if w.isDirectory l then .error .isDirectory
    else match w.enter l.dropLast with
      | .error e => .error e
      | .ok () => .ok (w.put l text)

/-- Adds a directory. -/
def addDirectory (w : Workspace) (l : Trail) : Workspace :=
  if w.isDirectory l then w else { w with directories := w.directories ++ [l] }

/-- Makes the directories on the way from a location along the parts of a path. -/
def makeFrom (w : Workspace) : Trail → List String → Except FileError Workspace
  | _, [] => .ok w
  | l, part :: rest =>
    if part == "." then w.makeFrom l rest
    else if part == ".." then w.makeFrom l.dropLast rest
    else
      let next := l ++ [part]
      if (w.file? next).isSome then .error (if rest.isEmpty then .alreadyThere else .notDirectory)
      else (w.addDirectory next).makeFrom next rest

/-- Makes a directory and those above it. -/
def makeDirectory (w : Workspace) (path : String) : Except FileError Workspace :=
  w.makeFrom (w.start path) ((split '/' path).filter (· != ""))

/-- Adds a file below the working directory, with the directories above it; a path with a slash at its end is a
directory. -/
def addFile (w : Workspace) (path text : String) : Workspace :=
  let parts := (split '/' path).filter fun p => p != "" && p != "."
  let isDirectory := (dropTrail? "/" path).isSome
  let above := if isDirectory then parts else parts.dropLast
  let w := (List.range above.length).foldl (fun w n => w.addDirectory (w.current ++ above.take (n + 1))) w
  if isDirectory then w else w.put (w.current ++ parts) text

/-- A workspace with these files in its working directory, which is not the root. -/
def ofFiles (files : List (String × String)) : Workspace :=
  files.foldl (fun w f => w.addFile f.1 f.2) { current := ["workspace"] }

/-- What the formatter answers. -/
def format (w : Workspace) : Except FormatError Unit :=
  match w.formatter with
  | .succeeds => .ok ()
  | .fails program => .error (.failed program)
  | .missing => .error (.missing .notFound)

/-- An answer with the workspace after it; a refused request changes nothing. -/
def answer (w : Workspace) : Except FileError Workspace → Except FileError Unit × Workspace
  | .ok w' => (.ok (), w')
  | .error e => (.error e, w)

/-! ## Running tasks -/

section Loops

variable {σ γ : Type}

/-- Goes from state to state until there is a result. Without an end the result is any value at all. -/
def iterate [Nonempty γ] (next : σ → σ ⊕ γ) (s : σ) : γ := Id.run (repeatM (fun s => pure (next s)) s)

theorem iterate_eq [Nonempty γ] (next : σ → σ ⊕ γ) (s : σ) : iterate next s =
    match next s with
    | .inl s => iterate next s
    | .inr c => c :=
  repeatM_eq_of_monadTail (m := Id) s

/-- What a round of a loop comes to, with the workspace after it. -/
def endOfRound : (σ ⊕ γ) × Workspace → (σ × Workspace) ⊕ (γ × Workspace)
  | (.inl s, w) => .inl (s, w)
  | (.inr c, w) => .inr (c, w)

end Loops

/-- Runs a task to its end. -/
def run : {α : Type} → Workspace → Task α → α × Workspace
  | _, w, .done a => (a, w)
  | _, w, .probe p k => w.run (k (w.existsAt p))
  | _, w, .read p k => w.run (k (w.read p))
  | _, w, .makeDirectory p k => let (r, w) := w.answer (w.makeDirectory p); w.run (k r)
  | _, w, .write p t k => let (r, w) := w.answer (w.write p t); w.run (k r)
  | _, w, .format _ k => w.run (k w.format)
  | _, w, .print t k => { w with output := w.output ++ t }.run k
  | _, w, .warn t k => { w with warnings := w.warnings ++ t }.run k
  | _, w, .cancelled k => w.run (k w.cancelled)
  | _, w, @Task.loop _ γ _ _ round s k =>
    let (c, w) : γ × Workspace := iterate (fun (s, w) => endOfRound (run w (round s))) (s, w)
    w.run (k c)

/-- The files below the working directory that are new in the second workspace or have another text there. -/
def changes (before after : Workspace) : List (String × String) :=
  (after.files.filter fun f => before.file? f.1 != some f.2).filterMap fun f =>
    if before.current.isPrefixOf f.1 then some (String.intercalate "/" (f.1.drop before.current.length), f.2) else none

end Workspace

end ApiForge

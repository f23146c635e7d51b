import ApiForge.Text.Basic

/-!
# Arguments

Options are written with two dashes and a word or with one dash and a letter. The value of an option stands behind an
equals sign, behind the letter or in the next argument; an argument that begins with a dash is never taken for a value.

* `Scan.read` goes through arguments up to their end or to the name of a command.
* `Scan.finish` takes up the option that still waits for its values.
-/

namespace ApiForge.Cli

open Text

/-- Why arguments are not accepted, or what they ask for instead of a command. -/
inductive UsageError where
  | help
  | helpForMissingCommand
  | version
  | missingCommand
  | unknownCommand
  | missingOption
  | unknownArgument
  | invalidValue
  | repeatedOption
  | unwantedValue
  deriving DecidableEq, Repr

/-- What an option means. -/
inductive OptionKind where
  | flag
  /-- It has one value, which has to pass a test. -/
  | single (test : String → Bool)
  /-- It has one or more values, and may be repeated. -/
  | many (test : String → Bool)
  | help
  | version

/-- An option of a command. -/
structure CliOption where
  name : String
  letter : Option Char := none
  kind : OptionKind

/-- Whether an option has values. -/
def CliOption.takesValue (o : CliOption) : Bool :=
  match o.kind with
  | .single _ | .many _ => true
  | _ => false

/-- The values of the options that have been given, in order. -/
abbrev Matches := List (String × List String)

namespace Matches

/-- Whether an option has been given. -/
def has (m : Matches) (name : String) : Bool := m.any (·.1 == name)

/-- All values of an option. -/
def values (m : Matches) (name : String) : List String := (m.filter (·.1 == name)).flatMap (·.2)

/-- The value of an option. -/
def value? (m : Matches) (name : String) : Option String := (m.values name).head?

/-- Takes up an option with its values. -/
def record (m : Matches) (o : CliOption) (vs : List String) : Except UsageError Matches :=
  match o.kind with
  | .help => .error .help
  | .version => .error .version
  | .flag => if m.has o.name then .error .repeatedOption else .ok (m ++ [(o.name, [])])
  | .single test =>
    if vs.isEmpty then .error .invalidValue
    else if m.has o.name then .error .repeatedOption
    else if vs.all test then .ok (m ++ [(o.name, vs)])
    else .error .invalidValue
  | .many test => if vs.isEmpty || !vs.all test then .error .invalidValue else .ok (m ++ [(o.name, vs)])

end Matches

/-- How far arguments have been read. -/
structure Scan where
  found : Matches := []
  /-- The option that waits, with the values it has so far. -/
  waiting : Option (CliOption × List String) := none
  /-- Whether the next argument may be one of its values. -/
  wantsValue : Bool := false
  /-- Whether two dashes have ended the options. -/
  ended : Bool := false

namespace Scan

/-- Takes up the option that waits. -/
def settle (s : Scan) : Except UsageError Scan :=
  match s.waiting with
  | none => .ok { s with wantsValue := false }
  | some (o, vs) => do
    let found ← s.found.record o vs
    return { s with found, waiting := none, wantsValue := false }

/-- Takes up an option with its values, after the one that waits. -/
def take (s : Scan) (o : CliOption) (vs : List String) : Except UsageError Scan := do
  let s ← s.settle
  let found ← s.found.record o vs
  return { s with found }

/-- Begins an option whose values follow, unless one stands behind it. -/
def begin (s : Scan) (o : CliOption) : Option String → Except UsageError Scan
  | some v => s.take o [v]
  | none => do
    let s ← s.settle
    return { s with waiting := some (o, []), wantsValue := true }

/-- Reads an option written as a word. -/
def word (options : List CliOption) (s : Scan) (text : String) : Except UsageError Scan :=
  let (name, value) := match splitOnce? '=' text with
    | some (n, v) => (n, some v)
    | none => (text, none)
  match options.find? (·.name == name) with
  | none => .error .unknownArgument
  | some o =>
    if o.takesValue then s.begin o value
    else if value.isSome then .error .unwantedValue
    else s.take o []

/-- Reads options written as letters; the rest of the letters is the value of an option that has one. -/
def letters (options : List CliOption) : Scan → List Char → Except UsageError Scan
  | s, [] => .ok s
  | s, c :: cs =>
    match options.find? (·.letter == some c) with
    | none => .error .unknownArgument
    | some o =>
      if o.takesValue then
        s.begin o (match cs with
          | [] => none
          | '=' :: v => some (String.ofList v)
          | v => some (String.ofList v))
      else do
        let s ← s.take o []
        letters options s cs

/-- Adds a value to the option that waits. -/
def addValue (s : Scan) (arg : String) : Scan :=
  match s.waiting with
  | none => s
  | some (o, vs) =>
    let goesOn := match o.kind with
      | .many _ => true
      | _ => false
    { s with waiting := some (o, vs ++ [arg]), wantsValue := goesOn }

/-- The error for an argument that has no place. -/
def stray (commands : List String) (s : Scan) (arg : String) : UsageError :=
  if commands.isEmpty || (s.ended && commands.contains arg) then .unknownArgument else .unknownCommand

/-- Reads one argument that is not the name of a command. -/
def argument (options : List CliOption) (commands : List String) (s : Scan) (arg : String) : Except UsageError Scan :=
  if s.ended then .error (s.stray commands arg)
  else match arg.toList with
    | ['-', '-'] => .ok { s with ended := true }
    | '-' :: '-' :: name => word options s (String.ofList name)
    | '-' :: c :: cs => letters options s (c :: cs)
    | _ => if s.wantsValue then .ok (s.addValue arg) else .error (s.stray commands arg)

/-- Reads arguments up to the name of a command, which is returned with the arguments behind it. -/
def read (options : List CliOption) (commands : List String) :
    Scan → List String → Except UsageError (Scan × Option (String × List String))
  | s, [] => .ok (s, none)
  | s, arg :: rest =>
    if !s.ended && !s.wantsValue && commands.contains arg then .ok (s, some (arg, rest))
    else do
      let s ← argument options commands s arg
      read options commands s rest

/-- The options that have been given, when there are no more arguments. -/
def finish (s : Scan) : Except UsageError Matches := (·.found) <$> s.settle

end Scan

end ApiForge.Cli

import ApiForge.Route.Template
import ApiForge.Text.Ascii

/-!
# Route tables

A table holds routes in declaration order and a base path that requests lie under.

* `Table.relative?` strips the base path from a request path.
* `Table.route` takes the first route of the method whose template matches; only without one does a structural mismatch
  count, again the first.
-/

namespace ApiForge.Route

open Text

/-- A template under a method, answered by an operation. -/
structure Entry where
  method : String
  template : Template
  operationId : String

/-- What a request path leads to. -/
inductive Outcome where
  | matched (entry : Entry) (captures : Captures)
  | mismatch (entry : Entry) (segment : Nat)
  | noMatch

namespace Outcome

/-- The status of a failed routing. -/
def failureStatus? : Outcome → Option Nat
  | matched _ _ => none
  | mismatch _ _ => some 400
  | noMatch => some 404

end Outcome

/-- The captured text of a placeholder; the last occurrence of a repeated name counts. -/
def Captures.get? (captures : Captures) (name : String) : Option String :=
  (captures.reverse.find? (·.1 == name)).map (·.2)

/-- The captured texts by name, each name once; a later occurrence replaces an earlier one. -/
def Captures.toMap (captures : Captures) : List (String × String) :=
  captures.foldl (fun texts c => c :: texts.filter (·.1 != c.1)) []

/-- Routes in declaration order under a base path. -/
structure Table where
  entries : List Entry
  basePath : String

namespace Table

/-- The part of a path below the base path. -/
def relative? (t : Table) (path : String) : Option String :=
  if t.basePath.isEmpty then some path
  else match afterLead? t.basePath.toList path.toList with
    | some [] => some "/"
    | some ('/' :: rest) => some (String.ofList ('/' :: rest))
    | _ => none

/-- Searches routes in order, with the first structural mismatch met so far. -/
def search (method path : String) : List Entry → Option (Entry × Nat) → Outcome
  | [], some (e, i) => .mismatch e i
  | [], none => .noMatch
  | e :: es, seen =>
    if e.method = method then
      match e.template.matchPath path with
      | .matched captures => .matched e captures
      | .mismatch i => search method path es (seen.or (some (e, i)))
      | .noMatch => search method path es seen
    else search method path es seen

/-- Routes a request. -/
def route (t : Table) (method path : String) : Outcome :=
  match t.relative? path with
  | none => .noMatch
  | some rel => search method rel t.entries none

/-- One line per route under a line for the table. -/
def listing (t : Table) : List String :=
  s!"[routes] base_path={t.basePath} count={t.entries.length}" ::
    t.entries.map fun e => s!"[route] {e.method} {t.basePath}{e.template.raw} -> {e.operationId}"

end Table

/-- The punctuation allowed in a method. -/
def methodMarks : List Char := "!#$%&'*+-.^_|~".toList ++ [Char.ofNat 96]

/-- Whether a text is a method: a non-empty token of letters, digits and marks. -/
def isMethod (m : String) : Bool :=
  !m.isEmpty && m.toList.all fun c => isAlnumAscii c || methodMarks.contains c

end ApiForge.Route

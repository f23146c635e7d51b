import ApiForge.CompileError
import ApiForge.Text.Basic
import ApiForge.Text.Blank

/-!
# Path templates

A template is a list of segments separated by slashes. A segment is a literal text, a placeholder, or a placeholder
with text around it.

* `Template.parse` reads a template, `Segment.text` writes a segment back.
* `Template.matchPath` compares a path with a template. A path that fails anywhere but in the text after a placeholder
  is no instance of the template at all; a failure only there is a structural mismatch.
-/

namespace ApiForge.Route

open Text

/-- A piece of a template between slashes. -/
inductive Segment where
  /-- Stands for its own text. -/
  | literal (text : String)
  /-- A placeholder that fills the segment. -/
  | param (name : String)
  /-- A placeholder between two texts, of which at least one is not empty. -/
  | mixed (lead name trail : String)
  deriving DecidableEq

namespace Segment

/-- The name of the placeholder. -/
def paramName? : Segment → Option String
  | literal _ => none
  | param name => some name
  | mixed _ name _ => some name

/-- A placeholder in braces. -/
def braced (name : String) : String := "\x7b" ++ name ++ "\x7d"

/-- The segment as written in a template. -/
def text : Segment → String
  | literal t => t
  | param name => braced name
  | mixed lead name trail => lead ++ braced name ++ trail

/-- Why a segment is rejected. -/
inductive Fault where
  | unbalanced
  | several
  | unnamed
  deriving DecidableEq

/-- The wording of a fault in a segment. -/
def Fault.reason (segment : String) : Fault → String
  | unbalanced => s!"unbalanced braces in segment '{segment}'"
  | several => s!"more than one parameter in segment '{segment}'"
  | unnamed => "empty parameter name"

/-- Reads one segment. -/
def parse (cs : List Char) : Except Fault Segment :=
  let opens := cs.count '\x7b'
  let closes := cs.count '\x7d'
  if opens = 0 ∧ closes = 0 then .ok (literal (String.ofList cs))
  else if opens ≠ closes then .error .unbalanced
  else if 1 < opens then .error .several
  else match cut? '\x7b' cs with
    | none => .error .unbalanced
    | some (lead, rest) => match cut? '\x7d' rest with
      | none => .error .unbalanced
      | some (name, trail) =>
        if name.all isBlank then .error .unnamed
        else if lead.isEmpty && trail.isEmpty then .ok (param (String.ofList name))
        else .ok (mixed (String.ofList lead) (String.ofList name) (String.ofList trail))

end Segment

/-- A parsed template with the text it was read from. -/
structure Template where
  raw : String
  segments : List Segment
  deriving DecidableEq

/-- The names and captured texts of placeholders, in template order. -/
abbrev Captures := List (String × String)

/-- How a path compares with a template. -/
inductive Match where
  | matched (captures : Captures)
  /-- Everything fits but the text after a placeholder, first in the segment with this index. -/
  | mismatch (segment : Nat)
  | noMatch
  deriving DecidableEq

namespace Template

/-- Reads the segments one by one, reporting the first fault. -/
def parseSegments (raw : String) : List (List Char) → Except CompileError (List Segment)
  | [] => .ok []
  | p :: ps => match Segment.parse p with
    | .error fault => .error (.invalidRouteTemplate raw (fault.reason (String.ofList p)))
    | .ok s => (parseSegments raw ps).map (s :: ·)

/-- Reads a template. -/
def parse (raw : String) : Except CompileError Template :=
  match raw.toList with
  | '/' :: rest => (parseSegments raw (pieces '/' rest)).map (⟨raw, ·⟩)
  | _ => .error (.invalidRouteTemplate raw "template must start with '/'")

/-- The names of the placeholders, in order. -/
def paramNames (t : Template) : List String := t.segments.filterMap Segment.paramName?

/-- How one piece of a path compares with one segment. -/
inductive Fit where
  | plain
  | bound (name value : String)
  | wrongTrail
  | unfit

/-- Compares a piece of a path with a segment. -/
def fit (part : List Char) : Segment → Fit
  | .literal text => if text.toList = part then .plain else .unfit
  | .param name => if part.isEmpty then .unfit else .bound name (String.ofList part)
  | .mixed lead name trail => match afterLead? lead.toList part with
    | none => .unfit
    | some [] => .unfit
    | some rest => match beforeTrail? trail.toList rest with
      | none => .wrongTrail
      | some [] => .unfit
      | some middle => .bound name (String.ofList middle)

/-- Puts the outcome for the segment with index `i` before the outcome of the segments after it. -/
def Fit.before (i : Nat) : Fit → Match → Match
  | .unfit, _ => .noMatch
  | _, .noMatch => .noMatch
  | .wrongTrail, _ => .mismatch i
  | .plain, m => m
  | .bound name value, .matched captures => .matched ((name, value) :: captures)
  | .bound _ _, .mismatch j => .mismatch j

/-- Compares the segments from index `i` on with the pieces of a path. -/
def matchFrom (i : Nat) : List Segment → List (List Char) → Match
  | [], [] => .matched []
  | s :: ss, p :: ps => (fit p s).before i (matchFrom (i + 1) ss ps)
  | _, _ => .noMatch

/-- Compares a path with a template. -/
def matchPath (t : Template) (path : String) : Match :=
  match path.toList with
  | '/' :: rest => matchFrom 0 t.segments (pieces '/' rest)
  | _ => .noMatch

end Template

end ApiForge.Route

import ApiForge.Code.Printer
import ApiForge.Compilation
import ApiForge.LineDiff.Unified

/-!
# Comparing compilations

Two settings are compared by the source that they produce from one description.
-/

namespace ApiForge

/-- The label of a compiler with these settings. -/
def Config.label (c : Config) : String := s!"brrtgen[{c.presence.name}]"

/-- A compiler that fails during a comparison. -/
structure ComparisonError where
  label : String
  source : String
  cause : CompileError

/-- The words for a failed comparison. -/
def ComparisonError.message (e : ComparisonError) : String := s!"{e.label} failed on {e.source}"

/-- The source that a description compiles to. -/
def sourceFor (c : Config) (d : Description) : Except ComparisonError String :=
  match compile c d with
  | .ok compilation => .ok compilation.file.render
  | .error e => .error ⟨c.label, d.source, e⟩

/-- Compares the source under two settings; a failure on the left comes first. -/
def compareConfigs (left right : Config) (d : Description) : Except ComparisonError LineDiff.Comparison := do
  let a ← sourceFor left d
  let b ← sourceFor right d
  return LineDiff.compare left.label a right.label b

end ApiForge

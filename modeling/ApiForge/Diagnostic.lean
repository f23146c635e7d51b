/-!
# Diagnostics

Notes that do not stop a compilation: what was skipped or made up, and where.
-/

namespace ApiForge

/-- How serious a diagnostic is. -/
inductive Severity where
  | warning
  | info
  deriving DecidableEq

/-- The word for a severity. -/
def Severity.name : Severity → String
  | warning => "warning"
  | info => "info"

/-- A note about one place of a description. -/
structure Diagnostic where
  location : String
  severity : Severity
  kind : String
  message : String
  deriving DecidableEq

/-- A warning. -/
def Diagnostic.warn (location kind message : String) : Diagnostic := ⟨location, .warning, kind, message⟩

/-- A diagnostic on one line. -/
def Diagnostic.text (d : Diagnostic) : String :=
  s!"[{d.severity.name}:{d.kind}] {d.location}: {d.message}"

end ApiForge

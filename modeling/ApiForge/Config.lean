import ApiForge.Schema.Node

/-!
# Compiler settings
-/

namespace ApiForge

/-- Where generated files lie below the output directory. -/
inductive OutputScheme where
  /-- One file per description. -/
  | flat
  /-- One directory per description. -/
  | nested
  deriving DecidableEq

/-- The word for a scheme. -/
def OutputScheme.name : OutputScheme → String
  | flat => "flat"
  | nested => "nested"

/-- The scheme with a given name. -/
def OutputScheme.ofName? : String → Option OutputScheme
  | "flat" => some flat
  | "nested" => some nested
  | _ => none

/-- The settings of a compilation. -/
structure Config where
  presence : Presence := .standard
  output : OutputScheme := .flat
  /-- The path that generated source imports the runtime from. -/
  importRoot : String := "brrtgen"
  deriving DecidableEq

end ApiForge

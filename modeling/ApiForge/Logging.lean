import ApiForge.Text.Ascii
import ApiForge.Text.Basic
import ApiForge.Text.Blank

/-!
# Logging settings

The settings come from the environment. A filter is a list of directives, the more specific ones first: a directive
for a target goes before the one for everything else, and a longer target before a shorter one.

* `LogConfig.ofLookup` reads the settings.
* `LogConfig.filter` gives the directives, and the texts that are none.
-/

namespace ApiForge

open Text

/-- How much is logged. -/
inductive LogLevel where
  | off
  | error
  | warn
  | info
  | debug
  | trace
  deriving DecidableEq, Repr

/-- The word for a level. -/
def LogLevel.name : LogLevel → String
  | off => "off"
  | error => "error"
  | warn => "warn"
  | info => "info"
  | debug => "debug"
  | trace => "trace"

/-- The levels from the least to the most. -/
def LogLevel.all : List LogLevel := [off, error, warn, info, debug, trace]

/-- The level of a word in any case or of a number from zero; an empty text stands for errors. -/
def LogLevel.ofText? (s : String) : Option LogLevel :=
  if s.isEmpty then some error
  else
    let digits := match s.toList with
      | '+' :: ds => ds
      | ds => ds
    if !digits.isEmpty && digits.all isDigitAscii then all[decimalValue digits]?
    else all.find? fun l => l.name == lowerAscii s

/-- The form of log lines. -/
inductive LogFormat where
  | json
  | pretty
  deriving DecidableEq, Repr

/-- The form that a text asks for. -/
def LogFormat.ofText (s : String) : LogFormat := if lowerAscii s == "json" then json else pretty

/-- Logging settings. -/
structure LogConfig where
  level : String := "info"
  format : LogFormat := .pretty
  targets : Option String := none

/-- How much of a target is logged; without a target it holds for everything else. -/
structure LogDirective where
  target : Option String
  level : LogLevel
  deriving DecidableEq

namespace LogDirective

/-- The directive on one line. -/
def text (d : LogDirective) : String :=
  match d.target with
  | some t => t ++ "=" ++ d.level.name
  | none => d.level.name

/-- A character that a directive may begin with: a letter, a digit, or one of a few marks. -/
def canBegin (c : Char) : Bool := isAlnumAscii c || c == '-' || c == ':' || c == '_' || 0x80 ≤ c.toNat

/-- Reads a directive: a level, a target, or both. -/
def parse? (s : String) : Option LogDirective :=
  if !s.toList.head?.any canBegin || s.toList.contains '[' then none
  else match splitOnce? '=' s with
    | some (target, level) => (LogLevel.ofText? level).map fun l => ⟨some target, l⟩
    | none =>
      match LogLevel.ofText? s with
      | some l => some ⟨none, l⟩
      | none => some ⟨some s, .trace⟩

/-- Whether the first target goes before the second one. -/
def goesBefore : Option String → Option String → Bool
  | some a, some b => b.utf8ByteSize < a.utf8ByteSize || (a.utf8ByteSize == b.utf8ByteSize && b < a)
  | some _, none => true
  | none, _ => false

/-- Adds a directive at its place; it replaces one for the same target. -/
def insert (d : LogDirective) : List LogDirective → List LogDirective
  | [] => [d]
  | e :: es =>
    if d.target == e.target then d :: es
    else if goesBefore d.target e.target then d :: e :: es
    else e :: insert d es

end LogDirective

namespace LogConfig

/-- The settings in an environment. -/
def ofLookup (lookup : String → Option String) : LogConfig where
  level := (lookup "BRRTGEN_LOG_LEVEL").getD "info"
  format := ((lookup "BRRTGEN_LOG_FORMAT").map LogFormat.ofText).getD .pretty
  targets := (lookup "BRRTGEN_LOG_TARGET_FILTER").filter fun s => !(trim s).isEmpty

/-- The level; an unknown word stands for `info`. -/
def levelOf (c : LogConfig) : LogLevel :=
  ([LogLevel.trace, .debug, .warn, .error].find? fun l => l.name == lowerAscii c.level).getD .info

/-- The texts between the commas, without those that are blank. -/
def targetTexts (c : LogConfig) : List String :=
  (((c.targets.map (split ',')).getD []).map trim).filter (!·.isEmpty)

/-- The directives in order. -/
def filter (c : LogConfig) : List LogDirective :=
  (c.targetTexts.filterMap LogDirective.parse?).foldl (fun ds d => d.insert ds) [⟨none, c.levelOf⟩]

/-- The directives on one line. -/
def filterText (c : LogConfig) : String := String.intercalate "," (c.filter.map (·.text))

/-- The warnings about texts that are no directives. -/
def warnings (c : LogConfig) : List String :=
  (c.targetTexts.filter fun s => (LogDirective.parse? s).isNone).map fun s =>
    s!"Warning: Invalid log filter directive: {s}"

end LogConfig

end ApiForge

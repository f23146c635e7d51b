import ApiForge.Pattern.Parser

/-!
# Timestamps

The lexical form of a timestamp is given by a pattern: date, time, an optional fraction of a second and an offset. The
pattern sets no flags, so its digits are those of every script.
-/

namespace ApiForge.DateTime

open Pattern

/-- The pattern of timestamps, `^\d{4}-\d{2}-\d{2}[Tt ]\d{2}:\d{2}:\d{2}(\.\d+)?([Zz]|[+-]\d{2}:\d{2})$`. -/
def source : String :=
  "^\\d\x7b4\x7d-\\d\x7b2\x7d-\\d\x7b2\x7d[Tt ]\\d\x7b2\x7d:\\d\x7b2\x7d:\\d\x7b2\x7d(\\.\\d+)?" ++
    "([Zz]|[+-]\\d\x7b2\x7d:\\d\x7b2\x7d)$"

/-- The expression of timestamps. -/
def expression? : Option Regex := Regex.parse? source

/-- Whether a text is a timestamp. -/
def isDateTime (s : String) : Bool := expression?.any (·.occursIn s)

end ApiForge.DateTime

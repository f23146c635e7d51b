import ApiForge.Text.Ascii
import ApiForge.Text.Blank
import ApiForge.Text.DecimalDigit
import ApiForge.Text.Folding
import ApiForge.Text.Property
import ApiForge.Text.Script

/-!
# Sets of characters

The character classes of regular expressions, as expressions over ranges and Unicode properties; `CharSet.has` decides
membership.

* `named?` finds a general category, a binary property or a script by its name.
* `posix?` finds a bracketed ASCII class.

This is less than an engine with all of Unicode knows: the extensions of a script are read as the script itself (`scx`
as `sc`), and the properties `age`, `gcb`, `wb` and `sb` have no table, so a pattern that names one of them is refused.
-/

namespace ApiForge.Pattern

open Text

/-- A set of characters. -/
inductive CharSet where
  | range (low high : Nat)
  | digit
  | space
  | word
  | categories (letters : String)
  | script (index : Nat)
  | property (p : Property)
  | union (a b : CharSet)
  | inter (a b : CharSet)
  | diff (a b : CharSet)
  | symmDiff (a b : CharSet)
  | compl (a : CharSet)
  /-- Closed under case variants. -/
  | fold (a : CharSet)
  /-- Closed under the case of ASCII letters. -/
  | foldAscii (a : CharSet)
  deriving DecidableEq

/-- A letter, mark, decimal digit, connector or joiner. -/
def isWordChar (c : Char) : Bool :=
  if c.toNat < 128 then isAlnumAscii c || c == '_'
  else alphabetic.holds c || inCategories "FGHIL" c || c.toNat == 0x200C || c.toNat == 0x200D

namespace CharSet

/-- Membership. -/
def has : CharSet → Char → Bool
  | range low high, c => low ≤ c.toNat && c.toNat ≤ high
  | digit, c => isDecimalDigit c
  | space, c => isBlank c
  | word, c => isWordChar c
  | categories letters, c => inCategories letters c
  | script index, c => scriptRuns.at? c.toNat == some index
  | property p, c => p.holds c
  | union a b, c => a.has c || b.has c
  | inter a b, c => a.has c && b.has c
  | diff a b, c => a.has c && !b.has c
  | symmDiff a b, c => a.has c != b.has c
  | compl a, c => !a.has c
  | fold a, c => (caseVariants c).any a.has
  | foldAscii a, c => a.has c || a.has (lowerChar c) || a.has (upperChar c)

/-- One character. -/
def single (c : Char) : CharSet := range c.toNat c.toNat

/-- No character. -/
def none : CharSet := range 1 0

/-- Every character. -/
def all : CharSet := range 0 0x10FFFF

/-- Characters given by ranges. -/
def ofRanges (rs : List (Char × Char)) : CharSet :=
  rs.foldr (fun r acc => union (range r.1.toNat r.2.toNat) acc) none

/-- The ASCII letters, digits and the underscore. -/
def wordAscii : CharSet := ofRanges [('0', '9'), ('A', 'Z'), ('_', '_'), ('a', 'z')]

/-- The ASCII white space. -/
def spaceAscii : CharSet := union (range 9 13) (range 32 32)

/-- The ASCII classes that are written as a name between `[:` and `:]`. -/
def posix? (name : String) : Option CharSet :=
  match name with
  | "alnum" => some (ofRanges [('0', '9'), ('A', 'Z'), ('a', 'z')])
  | "alpha" => some (ofRanges [('A', 'Z'), ('a', 'z')])
  | "ascii" => some (range 0 127)
  | "blank" => some (union (range 9 9) (range 32 32))
  | "cntrl" => some (union (range 0 31) (range 127 127))
  | "digit" => some (ofRanges [('0', '9')])
  | "graph" => some (ofRanges [('!', '~')])
  | "lower" => some (ofRanges [('a', 'z')])
  | "print" => some (ofRanges [(' ', '~')])
  | "punct" => some (ofRanges [('!', '/'), (':', '@'), ('[', Char.ofNat 96), ('\x7b', '~')])
  | "space" => some spaceAscii
  | "upper" => some (ofRanges [('A', 'Z')])
  | "word" => some wordAscii
  | "xdigit" => some (ofRanges [('0', '9'), ('A', 'F'), ('a', 'f')])
  | _ => Option.none

/-- Names are compared in lower case, without separators and without a leading `is`. -/
def looseName (name : String) : String :=
  let cs := (name.toList.filter fun c => c != ' ' && c != '_' && c != '-' && c.toNat < 128).map lowerChar
  match cs with
  | ['i', 's', 'c'] => "isc"
  | 'i' :: 's' :: rest => String.ofList rest
  | _ => String.ofList cs

/-- A general category or group of categories by its loose name. -/
def category? (name : String) : Option CharSet :=
  match name with
  | "any" => some all
  | "ascii" => some (range 0 127)
  | "assigned" => some (compl (categories "&"))
  | _ => (categoryNames.find? fun row => (split ' ' row.1).contains name).map fun row => categories row.2

/-- A script by its loose name. -/
def script? (name : String) : Option CharSet :=
  (scriptNames.findIdx? fun row => (split ' ' row).contains name).map script

/-- A set by a single name: a binary property, a category or a script; short names of categories come first. -/
def named? (name : String) : Option CharSet :=
  let key := looseName name
  let byProperty :=
    if key == "cf" || key == "sc" || key == "lc" then Option.none else (Property.find? key).map property
  (byProperty.or (category? key)).or (script? key)

/-- A set by the name of a property and a value. -/
def valued? (name value : String) : Option CharSet :=
  let key := looseName value
  match looseName name with
  | "gc" => category? key
  | "generalcategory" => category? key
  | "sc" => script? key
  | "script" => script? key
  | "scx" => script? key
  | "scriptextensions" => script? key
  | _ => Option.none

end CharSet

end ApiForge.Pattern

import ApiForge.Text.Ascii
import ApiForge.Text.Basic

/-!
# Identifiers from arbitrary names

A name is cut into words at everything that is no ASCII letter or digit, and where a capital follows a small letter or
a digit.

* `pascalCase` names types, `snakeCase` names functions and operations, `fieldIdent` names record fields.
* `slug` names files: runs of small letters and digits joined by single underscores.
-/

namespace ApiForge.Naming

open Text

/-- The words of `cs`, where `word` is the word read so far and `breaks` says that a capital would end it. -/
def wordsFrom (word : List Char) (breaks : Bool) : List Char → List (List Char)
  | [] => if word.isEmpty then [] else [word]
  | c :: cs =>
    if !isAlnumAscii c then (if word.isEmpty then [] else [word]) ++ wordsFrom [] false cs
    else if isUpperAscii c && breaks then word :: wordsFrom [c] false cs
    else wordsFrom (word ++ [c]) (isLowerAscii c || isDigitAscii c) cs

/-- The words of a name. -/
def words (cs : List Char) : List (List Char) := wordsFrom [] false cs

/-- The word with its first letter in upper case. -/
def capitalize : List Char → List Char
  | [] => []
  | c :: cs => upperChar c :: cs

/-- An underscore in place of nothing and before a leading digit. -/
def guardStart : List Char → List Char
  | [] => ['_']
  | c :: cs => if isDigitAscii c then '_' :: c :: cs else c :: cs

/-- The words capitalised and put together; the receiver's type name is not used. -/
def pascalCase (s : String) : String :=
  let name := String.ofList (guardStart ((words s.toList).flatMap capitalize))
  if name == "Self" then "Self_" else name

/-- The words in lower case, joined by underscores. -/
def snakeCase (s : String) : String :=
  String.ofList (guardStart (joinWith ['_'] ((words s.toList).map (·.map lowerChar))))

/-- Words that the generated language reserves. -/
def keywords : List String := [
  "as", "break", "const", "continue", "crate", "else", "enum", "extern", "false", "fn", "for", "if", "impl", "in",
  "let", "loop", "match", "mod", "move", "mut", "pub", "ref", "return", "self", "Self", "static", "struct", "super",
  "trait", "true", "type", "unsafe", "use", "where", "while", "async", "await", "dyn", "abstract", "become", "box",
  "do", "final", "macro", "override", "priv", "typeof", "unsized", "virtual", "yield", "try", "gen"]

/-- Names that cannot be used even with the raw mark. -/
def unraw : List String := ["self", "super", "crate", "_"]

/-- The field identifier of a wire key: its snake case, with the raw mark on reserved words. -/
def fieldIdent (key : String) : String :=
  let name := snakeCase key
  if unraw.contains name then name ++ "_"
  else if keywords.contains name then "r#" ++ name
  else name

/-- The characters that `c` gives in a slug, with underscores for what is left out. The Kelvin sign and the dotted
capital I have ASCII small letters; the latter leaves its dot behind. -/
def slugChars (c : Char) : List Char :=
  if isAlnumAscii c then [lowerChar c]
  else if c.toNat == 0x212A then ['k']
  else if c.toNat == 0x130 then ['i', '_']
  else ['_']

/-- A file name for a title. -/
def slug (title : String) : String :=
  let runs := (pieces '_' (title.toList.flatMap slugChars)).filter (!·.isEmpty)
  if runs.isEmpty then "api" else String.ofList (joinWith ['_'] runs)

end ApiForge.Naming

import ApiForge.Decimal.Layout
import ApiForge.Json.Basic
import ApiForge.Text.Ascii

/-!
# Compact JSON text

Members are written in their order, without blanks; quotes, backslashes and control characters are escaped and every
other character stands for itself.
-/

namespace ApiForge.Json

open Text

/-- A character inside a JSON string. -/
def escapeChar (c : Char) : List Char :=
  if c == '"' then ['\\', '"']
  else if c == '\\' then ['\\', '\\']
  else if c == '\n' then ['\\', 'n']
  else if c == '\r' then ['\\', 'r']
  else if c == '\t' then ['\\', 't']
  else if c.toNat == 8 then ['\\', 'b']
  else if c.toNat == 12 then ['\\', 'f']
  else if c.toNat < 32 then ['\\', 'u', '0', '0', hexChar (c.toNat / 16), hexChar (c.toNat % 16)]
  else [c]

/-- A JSON string with its quotes. -/
def quote (s : String) : String :=
  String.ofList ('"' :: s.toList.flatMap escapeChar ++ ['"'])

/-- The text of a number. -/
def numberText : Number → String
  | .int n => toString n
  | .float x => Decimal.Layout.json.write x

mutual

/-- The compact text of a value. -/
def text : Json → String
  | null => "null"
  | bool b => if b then "true" else "false"
  | num n => numberText n
  | str s => quote s
  | arr xs => "[" ++ itemsText xs ++ "]"
  | obj ms => "\x7b" ++ membersText ms ++ "\x7d"

/-- The items separated by commas. -/
def itemsText : List Json → String
  | [] => ""
  | [x] => text x
  | x :: xs => text x ++ "," ++ itemsText xs

/-- The members separated by commas. -/
def membersText : Members → String
  | [] => ""
  | [(k, v)] => quote k ++ ":" ++ text v
  | (k, v) :: ms => quote k ++ ":" ++ text v ++ "," ++ membersText ms

end

end ApiForge.Json

import ApiForge.Text.Ascii
import ApiForge.Text.Property

/-!
# String literals of generated source

A text is written between double quotes. Quotes, backslashes and the usual control characters have short escapes;
characters that would not show on their own are written by their code point.

* `hidden` are the characters written by code point; no printable ASCII character is among them.
* `literal` writes a text.
-/

namespace ApiForge.Text

/-- Characters that do not show on their own: separators, controls, unassigned ones and those that extend the grapheme
before them. -/
def hidden (c : Char) : Bool :=
  if 0x20 ≤ c.toNat && c.toNat < 0x7F then false
  else inCategories "WXYZ#$%&" c || graphemeExtend.holds c

/-- One character inside a literal. -/
def literalChar (c : Char) : List Char :=
  if c == '"' then ['\\', '"']
  else if c == '\\' then ['\\', '\\']
  else if c == '\n' then ['\\', 'n']
  else if c == '\r' then ['\\', 'r']
  else if c == '\t' then ['\\', 't']
  else if c.toNat == 0 then ['\\', '0']
  else if hidden c then '\\' :: 'u' :: '\x7b' :: (hexDigits 8 c.toNat ++ ['\x7d'])
  else [c]

/-- The literal of a text. -/
def literal (s : String) : String :=
  String.ofList ('"' :: s.toList.flatMap literalChar ++ ['"'])

end ApiForge.Text

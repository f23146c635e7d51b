/-!
# ASCII classes and case

Identifiers, header names and verbs are compared on ASCII letters only, so these maps leave every other character as
it is.
-/

namespace ApiForge.Text

/-- `a` to `z`. -/
def isLowerAscii (c : Char) : Bool := 'a' ≤ c && c ≤ 'z'

/-- `A` to `Z`. -/
def isUpperAscii (c : Char) : Bool := 'A' ≤ c && c ≤ 'Z'

/-- `0` to `9`. -/
def isDigitAscii (c : Char) : Bool := '0' ≤ c && c ≤ '9'

/-- An ASCII letter. -/
def isLetterAscii (c : Char) : Bool := isLowerAscii c || isUpperAscii c

/-- An ASCII letter or digit. -/
def isAlnumAscii (c : Char) : Bool := isLetterAscii c || isDigitAscii c

/-- The lower-case letter of an upper-case ASCII letter. -/
def lowerChar (c : Char) : Char := if isUpperAscii c then Char.ofNat (c.toNat + 32) else c

/-- The upper-case letter of a lower-case ASCII letter. -/
def upperChar (c : Char) : Char := if isLowerAscii c then Char.ofNat (c.toNat - 32) else c

/-- Every ASCII letter in lower case. -/
def lowerAscii (s : String) : String := String.ofList (s.toList.map lowerChar)

/-- Every ASCII letter in upper case. -/
def upperAscii (s : String) : String := String.ofList (s.toList.map upperChar)

/-- Equality up to the case of ASCII letters. -/
def sameIgnoringCase (a b : String) : Bool := lowerAscii a == lowerAscii b

/-- The value of a digit in any base up to sixteen. -/
def hexDigit? (c : Char) : Option Nat :=
  if isDigitAscii c then some (c.toNat - 48)
  else if 'a' ≤ c && c ≤ 'f' then some (c.toNat - 87)
  else if 'A' ≤ c && c ≤ 'F' then some (c.toNat - 55)
  else none

/-- The lower-case hexadecimal digit of a number below sixteen. -/
def hexChar (n : Nat) : Char := if n < 10 then Char.ofNat (48 + n) else Char.ofNat (87 + n)

/-- The hexadecimal digits of a number, without leading zeros, for at most `fuel` digits. -/
def hexDigits : (fuel : Nat) → Nat → List Char
  | 0, _ => []
  | fuel + 1, n => if n < 16 then [hexChar n] else hexDigits fuel (n / 16) ++ [hexChar (n % 16)]

/-- The number that decimal digits denote; characters that are no digits are not expected. -/
def decimalValue (cs : List Char) : Nat := cs.foldl (fun n c => n * 10 + (c.toNat - 48)) 0

end ApiForge.Text

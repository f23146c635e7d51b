import ApiForge.Text.Ascii
import ApiForge.Text.Utf8

/-!
# Percent encoding

A byte is written as a percent sign and two digits in base sixteen.

* `encode` writes the characters of a set so and leaves the others.
* `decode` reads such bytes back; a percent sign that no two digits follow stands for itself.
-/

namespace ApiForge.Text.Percent

/-- A digit in base sixteen as a capital. -/
def upperDigit (n : Nat) : Char := upperChar (hexChar n)

/-- One byte. -/
def encodeByte (b : UInt8) : List Char := ['%', upperDigit (b.toNat / 16), upperDigit (b.toNat % 16)]

/-- A text whose characters in `special` are written byte by byte. -/
def encode (special : Char → Bool) (cs : List Char) : List Char :=
  cs.flatMap fun c => if special c then (Utf8.encode [c]).flatMap encodeByte else [c]

/-- The value of a byte that is a digit in base sixteen. -/
def digit? (b : UInt8) : Option Nat := if b < 0x80 then hexDigit? (Char.ofNat b.toNat) else none

/-- The bytes that a list of bytes stands for. -/
def decode : List UInt8 → List UInt8
  | 0x25 :: h :: l :: rest =>
    match digit? h, digit? l with
    | some x, some y => UInt8.ofNat (x * 16 + y) :: decode rest
    | _, _ => 0x25 :: decode (h :: l :: rest)
  | b :: rest => b :: decode rest
  | [] => []

end ApiForge.Text.Percent

/-!
# Text as bytes

* `encode` gives the UTF-8 bytes of a text.
* `decode` reads bytes; a piece that is no character is reported once, with as many bytes as could have begun one.
-/

namespace ApiForge.Text.Utf8

/-- The bytes of a text. -/
def encode (cs : List Char) : List UInt8 := cs.flatMap String.utf8EncodeChar

/-- How many bytes follow a leading byte, and the range of the first of them. -/
def lead? (b : UInt8) : Option (Nat × UInt8 × UInt8) :=
  if 0xC2 ≤ b && b ≤ 0xDF then some (1, 0x80, 0xBF)
  else if b == 0xE0 then some (2, 0xA0, 0xBF)
  else if b == 0xED then some (2, 0x80, 0x9F)
  else if 0xE1 ≤ b && b ≤ 0xEF then some (2, 0x80, 0xBF)
  else if b == 0xF0 then some (3, 0x90, 0xBF)
  else if 0xF1 ≤ b && b ≤ 0xF3 then some (3, 0x80, 0xBF)
  else if b == 0xF4 then some (3, 0x80, 0x8F)
  else none

/-- A byte that continues a character. -/
def isTail (b : UInt8) : Bool := 0x80 ≤ b && b ≤ 0xBF

/-- The character of a leading byte and the bytes after it. -/
def join (b : UInt8) (tail : List UInt8) : Char :=
  let head := b.toNat % Nat.pow 2 (6 - tail.length)
  Char.ofNat (tail.foldl (fun n t => n * 64 + t.toNat % 64) head)

/-- The character that begins with a byte, if there is one, and how many bytes after the first belong to the piece. -/
def piece (b : UInt8) (rest : List UInt8) : Option Char × Nat :=
  if b < 0x80 then (some (Char.ofNat b.toNat), 0)
  else match lead? b with
    | none => (none, 0)
    | some (n, low, high) =>
      match rest with
      | [] => (none, 0)
      | c :: more =>
        if c < low || high < c then (none, 0)
        else
          let tail := (more.take (n - 1)).takeWhile isTail
          if tail.length + 1 == n then (some (join b (c :: tail)), n) else (none, tail.length + 1)

/-- The pieces of a list of bytes after the first `skip` of them; `none` stands where there is no character. -/
def decodeFrom : (skip : Nat) → List UInt8 → List (Option Char)
  | _, [] => []
  | skip + 1, _ :: rest => decodeFrom skip rest
  | 0, b :: rest => (piece b rest).1 :: decodeFrom (piece b rest).2 rest

/-- The pieces of a list of bytes. -/
def decode (bytes : List UInt8) : List (Option Char) := decodeFrom 0 bytes

/-- The characters of a list of bytes that has no errors. -/
def decode? (bytes : List UInt8) : Option (List Char) := (decode bytes).mapM id

/-- The character that stands for an error. -/
def replacement : Char := Char.ofNat 0xFFFD

/-- The characters of a list of bytes, with one mark for each error. -/
def decodeLossy (bytes : List UInt8) : List Char := (decode bytes).map (·.getD replacement)

end ApiForge.Text.Utf8

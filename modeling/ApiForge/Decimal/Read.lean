import ApiForge.Text.Ascii
import ApiForge.Decimal.Shortest

/-!
# Reading decimal numbers

`nearest` rounds a decimal correctly. `stepwise` scales a 64-bit significand by powers of ten in floating point, one
rounding per step; it is the rule for numbers in JSON text. `ofText?` reads the free-standing notation of parameters
and YAML scalars; `signedInteger?` reads a signed 64-bit integer.
-/

namespace ApiForge.Decimal

open Text

/-- The binary64 number nearest to `mantissa * 10 ^ exponent`. -/
def nearest (mantissa : Nat) (exponent : Int) : Float :=
  let size : Int := ((Nat.toDigits 10 mantissa).length : Int) + exponent
  if mantissa == 0 || size < -340 then 0.0
  else if 310 < size then 1.0 / 0.0
  else if 0 ≤ exponent then Float.ofScientific mantissa false exponent.toNat
  else Float.ofScientific mantissa true (-exponent).toNat

/-- Whether a number is neither infinite nor undefined. -/
def isFinite (x : Float) : Bool :=
  match Parts.ofFloat x with
  | .finite _ _ => true
  | _ => false

/-- `significand * 10 ^ exponent` by floating-point steps; nothing when it grows beyond the range. -/
def stepwise (significand : Nat) (exponent : Int) : Option Float :=
  let x := Float.ofNat significand
  if 308 < exponent then
    if significand == 0 then some x else none
  else if 0 ≤ exponent then
    let y := x * Float.ofScientific 1 false exponent.toNat
    if isFinite y then some y else none
  else some (shrink 3 x (-exponent).toNat)
where
  /-- Divides by `10 ^ k`, by at most `10 ^ 308` at a time. -/
  shrink : Nat → Float → Nat → Float
    | 0, _, _ => 0.0
    | fuel + 1, x, k =>
      if k ≤ 308 then x / Float.ofScientific 1 false k
      else if x == 0.0 then x
      else shrink fuel (x / Float.ofScientific 1 false 308) (k - 308)

/-- The digits at the start of a text, and the rest. -/
def spanDigits (cs : List Char) : List Char × List Char :=
  (cs.takeWhile isDigitAscii, cs.dropWhile isDigitAscii)

/-- An optional sign at the start of a text: whether it is `-`, and the rest. -/
def spanSign : List Char → Bool × List Char
  | '-' :: cs => (true, cs)
  | '+' :: cs => (false, cs)
  | cs => (false, cs)

/-- The exponent part of a number that fills the rest of a text; an absent one is zero. -/
def exponentPart? : List Char → Option Int
  | [] => some 0
  | c :: cs =>
    if c == 'e' || c == 'E' then
      let (negative, ds) := spanSign cs
      if ds.isEmpty || !ds.all isDigitAscii then none
      else
        let n : Int := min (decimalValue (ds.dropWhile (· == '0') |>.take 9)) 1000000
        some (if negative then -n else n)
    else none

/-- An unsigned decimal number that fills a text: digits on at least one side of the point, then an exponent. -/
def unsigned? (cs : List Char) : Option Float :=
  let (whole, rest) := spanDigits cs
  let (fraction, rest) := match rest with
    | '.' :: r => spanDigits r
    | r => ([], r)
  if whole.isEmpty && fraction.isEmpty then none
  else (exponentPart? rest).map fun e => nearest (decimalValue (whole ++ fraction)) (e - fraction.length)

/-- A number with an optional sign; the words for infinity and for an undefined number count in any case. -/
def ofText? (s : String) : Option Float :=
  let (negative, cs) := spanSign s.toList
  let word := cs.map lowerChar
  let value :=
    if word == "inf".toList || word == "infinity".toList then some (1.0 / 0.0)
    else if word == "nan".toList then some (0.0 / 0.0)
    else unsigned? cs
  value.map fun x => if negative then -x else x

/-- The least and greatest signed 64-bit integers. -/
def minSigned : Int := -9223372036854775808

@[inherit_doc minSigned]
def maxSigned : Int := 9223372036854775807

/-- The greatest unsigned 64-bit integer. -/
def maxUnsigned : Int := 18446744073709551615

/-- An integer written as digits with an optional sign. -/
def integer? (s : String) : Option Int :=
  let (negative, ds) := spanSign s.toList
  if ds.isEmpty || !ds.all isDigitAscii then none
  else some (if negative then -(decimalValue ds : Int) else decimalValue ds)

/-- An integer in the signed 64-bit range, written as digits with an optional sign. -/
def signedInteger? (s : String) : Option Int :=
  (integer? s).filter fun n => minSigned ≤ n && n ≤ maxSigned

end ApiForge.Decimal

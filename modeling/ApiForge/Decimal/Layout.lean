import ApiForge.Decimal.Shortest

/-!
# Written forms of binary64 numbers

One printer writes the shortest digits of a number; a `Layout` holds what differs between the places where numbers are
written.

* `Layout.json`: documents and values.
* `Layout.source`: literals in generated source.
* `Layout.plain`: bounds in messages, never with an exponent.
-/

namespace ApiForge.Decimal

/-- The decisions of one written form. -/
structure Layout where
  /-- Whether a number whose first digit has this power of ten is written without an exponent. -/
  positional : Int → Bool
  /-- Whole numbers written without an exponent end in `.0`. -/
  pointZero : Bool
  /-- Positive exponents carry a `+`. -/
  plus : Bool

/-- First digits from `10⁻⁵` to `10¹⁵` are written out; larger exponents carry a sign. -/
def Layout.json : Layout := ⟨fun e => -5 ≤ e && e ≤ 15, true, true⟩

/-- First digits from `10⁻⁴` to `10¹⁵` are written out. -/
def Layout.source : Layout := ⟨fun e => -4 ≤ e && e ≤ 15, true, false⟩

/-- Everything is written out, and whole numbers have no point. -/
def Layout.plain : Layout := ⟨fun _ => true, false, false⟩

/-- `n` zeros. -/
def zeros (n : Nat) : List Char := List.replicate n '0'

/-- Digits without an exponent. -/
def writeOut (pointZero : Bool) (d : Digits) : List Char :=
  let n := d.digits.length
  if d.exponent < 0 then '0' :: '.' :: (zeros ((-d.exponent).toNat - 1) ++ d.digits)
  else
    let whole := d.exponent.toNat + 1
    if n ≤ whole then d.digits ++ zeros (whole - n) ++ (if pointZero then ['.', '0'] else [])
    else d.digits.take whole ++ '.' :: d.digits.drop whole

/-- Digits with an exponent. -/
def writeScientific (plus : Bool) (d : Digits) : List Char :=
  let mark := if d.exponent < 0 then ['e', '-'] else if plus then ['e', '+'] else ['e']
  let body := match d.digits with
    | [] => ['0']
    | [c] => [c]
    | c :: cs => c :: '.' :: cs
  body ++ mark ++ Nat.toDigits 10 d.exponent.natAbs

/-- The written form of a number. -/
def Layout.write (l : Layout) (x : Float) : String :=
  match Parts.ofFloat x with
  | .notANumber => "NaN"
  | .infinite negative => if negative then "-inf" else "inf"
  | .finite negative b =>
    let body :=
      if b.mantissa == 0 then (if l.pointZero then ['0', '.', '0'] else ['0'])
      else
        let d := shortest b
        if l.positional d.exponent then writeOut l.pointZero d else writeScientific l.plus d
    String.ofList (if negative then '-' :: body else body)

end ApiForge.Decimal

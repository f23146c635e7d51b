/-!
# Shortest decimal digits of a binary64 number

A finite number is `mantissa * 2 ^ exponent`. Every real number nearer to it than to its neighbours reads back as it;
the two ends of that interval read back exactly when the mantissa is even. `shortest` takes the coarsest decimal grid
that has a point in the interval and, on that grid, the point nearest to the number.
-/

namespace ApiForge.Decimal

/-- A finite binary64 number without its sign: `mantissa * 2 ^ exponent`. -/
structure Binary where
  mantissa : Nat
  exponent : Int
  /-- The neighbour below is only half as far away as the one above. -/
  narrowBelow : Bool

/-- What the bits of a binary64 number stand for. -/
inductive Parts where
  | finite (negative : Bool) (magnitude : Binary)
  | infinite (negative : Bool)
  | notANumber

/-- The parts of a number: one sign bit, eleven exponent bits, fifty-two fraction bits. -/
def Parts.ofFloat (x : Float) : Parts :=
  let bits : Nat := x.toBits.toNat
  let negative := bits / Nat.pow 2 63 == 1
  let field : Nat := bits / Nat.pow 2 52 % Nat.pow 2 11
  let fraction : Nat := bits % Nat.pow 2 52
  if field == 2047 then
    if fraction == 0 then .infinite negative else .notANumber
  else if field == 0 then .finite negative ⟨fraction, -1074, false⟩
  else .finite negative ⟨Nat.pow 2 52 + fraction, (field : Int) - 1075, fraction == 0 && field != 1⟩

/-- Decimal digits `d₀ d₁ …` with the power of ten of the first digit. -/
structure Digits where
  digits : List Char
  exponent : Int

/-- Removes zeros at the end of a digit list. -/
def stripZeros (ds : List Char) : List Char := (ds.reverse.dropWhile (· == '0')).reverse

/-- The greatest `k ≤ fuel` steps of scaling `num` by ten that keep it below `den`. -/
def leadingZeros (den : Nat) : (fuel : Nat) → Nat → Nat
  | 0, _ => 0
  | fuel + 1, num => if num * 10 < den then leadingZeros den fuel (num * 10) + 1 else 0

/-- The power of ten of the first digit of `num / den`. -/
def firstExponent (num den : Nat) : Int :=
  if den ≤ num then ((Nat.toDigits 10 (num / den)).length : Int) - 1
  else -((leadingZeros den 400 num : Int) + 1)

/-- `a / b < c / d` on fractions whose first side is scaled by `10 ^ g`. -/
def scaledLt (a : Nat) (g : Int) (b c : Nat) (orEqual : Bool) : Bool :=
  let left := if 0 ≤ g then a * Nat.pow 10 g.toNat * b else a * b
  let right := if 0 ≤ g then c else c * Nat.pow 10 (-g).toNat
  if orEqual then left ≤ right else left < right

/-- The opposite comparison of `scaledLt`. -/
def scaledGt (a : Nat) (g : Int) (b c : Nat) (orEqual : Bool) : Bool :=
  !(scaledLt a g b c (!orEqual))

/-- The point with `count` digits nearest to `num / den`, if it lies between `low / den` and `high / den`. -/
def gridPoint? (num low high den : Nat) (closed : Bool) (first : Int) (count : Nat) : Option (Nat × Int) :=
  let g := first + 1 - count
  let up := if 0 ≤ g then num else num * Nat.pow 10 (-g).toNat
  let unit := if 0 ≤ g then den * Nat.pow 10 g.toNat else den
  let below := up / unit
  let inside := fun c => scaledGt c g den low closed && scaledLt c g den high closed
  let rest := 2 * (up % unit)
  let preferBelow := rest < unit || (rest == unit && below % 2 == 0)
  match inside below, inside (below + 1) with
  | true, true => some (if preferBelow then below else below + 1, g)
  | true, false => some (below, g)
  | false, true => some (below + 1, g)
  | false, false => none

/-- The shortest digits that read back as a positive number. -/
def shortest (b : Binary) : Digits :=
  let scale := Nat.pow 2 b.exponent.toNat
  let num := 4 * b.mantissa * scale
  let den := 4 * Nat.pow 2 (-b.exponent).toNat
  let low := num - (if b.narrowBelow then 1 else 2) * scale
  let high := num + 2 * scale
  let first := firstExponent num den
  let found := ((List.range 17).findSome? fun k =>
    gridPoint? num low high den (b.mantissa % 2 == 0) first (k + 1)).getD (0, 0)
  let ds := Nat.toDigits 10 found.1
  ⟨stripZeros ds, found.2 + (ds.length : Int) - 1⟩

end ApiForge.Decimal

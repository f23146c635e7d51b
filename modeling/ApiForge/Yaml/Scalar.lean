import ApiForge.Decimal.Read
import ApiForge.Json.Basic

/-!
# Values of YAML scalars

A plain scalar stands for `null`, a boolean, an integer, a number or a text, tried in this order. Integers may be
written in base sixteen, eight or two; a text of digits with a superfluous zero in front stays a text.

* `plain?` gives the value of a plain scalar.
* `tagged?` gives the value of a scalar whose tag names a kind.
-/

namespace ApiForge.Yaml

open Text

/-- The words for `null`. -/
def isNullWord (s : String) : Bool := s == "null" || s == "Null" || s == "NULL" || s == "~"

/-- The words for the booleans. -/
def boolean? (s : String) : Option Bool :=
  if s == "true" || s == "True" || s == "TRUE" then some true
  else if s == "false" || s == "False" || s == "FALSE" then some false
  else none

/-- Whether a text consists of digits, after a sign or none, with a superfluous zero in front. -/
def isPaddedDigits (cs : List Char) : Bool :=
  match (Decimal.spanSign cs).2 with
  | '0' :: d :: ds => (d :: ds).all isDigitAscii
  | _ => false

/-- The digits of a number in some base. -/
def digits? (base : Nat) (cs : List Char) : Option Nat :=
  if cs.isEmpty then none
  else cs.foldlM (fun acc c => (hexDigit? c).bind fun v => if v < base then some (acc * base + v) else none) 0

/-- A number in base sixteen, eight or two, with its mark. -/
def based? : List Char → Option Nat
  | '0' :: 'x' :: ds => digits? 16 ds
  | '0' :: 'o' :: ds => digits? 8 ds
  | '0' :: 'b' :: ds => digits? 2 ds
  | _ => none

/-- An integer of any size. -/
def integer? (s : String) : Option Int :=
  let cs := s.toList
  let magnitude (ds : List Char) : Option Nat :=
    (based? ds).orElse fun _ => if isPaddedDigits cs then none else digits? 10 ds
  match cs with
  | '-' :: ds => (magnitude ds).map fun n => -(n : Int)
  | '+' :: ds => (magnitude ds).map Int.ofNat
  | ds => (magnitude ds).map Int.ofNat

/-- What an integer text comes to. -/
inductive IntegerReading where
  /-- It fits a signed or an unsigned 64-bit word. -/
  | fits (value : Int)
  /-- It fits only a 128-bit word. -/
  | tooWide
  /-- It is no integer, or wider still. -/
  | other

/-- Reads an integer. -/
def readInteger (s : String) : IntegerReading :=
  match integer? s with
  | none => .other
  | some n =>
    if Decimal.minSigned ≤ n && n ≤ Decimal.maxUnsigned then .fits n
    else if -(Nat.pow 2 127 : Int) ≤ n && n < (Nat.pow 2 128 : Int) then .tooWide
    else .other

/-- A number: infinite or undefined by their words, else finite. -/
def float? (s : String) : Option Float :=
  let cs := s.toList
  let (signed, body) := match cs with
    | '+' :: rest => (true, rest)
    | rest => (false, rest)
  if signed && (body.head? == some '+' || body.head? == some '-') then none
  else
    let text := String.ofList body
    if text == ".inf" || text == ".Inf" || text == ".INF" then some (1.0 / 0.0)
    else if s == "-.inf" || s == "-.Inf" || s == "-.INF" then some (-1.0 / 0.0)
    else if s == ".nan" || s == ".NaN" || s == ".NAN" then some (0.0 / 0.0)
    else (Decimal.ofText? text).filter Decimal.isFinite

/-- A number as a value; one that is not finite is `null`. -/
def ofFloat (x : Float) : Json := if Decimal.isFinite x then .num (.float x) else .null

/-- The value of a plain scalar; nothing when it is an integer that is too wide. -/
def plain? (s : String) : Option Json :=
  if s.isEmpty || isNullWord s then some .null
  else match boolean? s with
    | some b => some (.bool b)
    | none => match readInteger s with
      | .fits n => some (.ofInt n)
      | .tooWide => none
      | .other =>
        if isPaddedDigits s.toList then some (.str s)
        else match float? s with
          | some x => some (ofFloat x)
          | none => some (.str s)

/-- The value of a scalar with a tag; nothing when the text is not of the kind that the tag names. -/
def tagged? (tag s : String) : Option Json :=
  if tag == "tag:yaml.org,2002:bool" then (boolean? s).map .bool
  else if tag == "tag:yaml.org,2002:int" then
    match readInteger s with
    | .fits n => some (.ofInt n)
    | _ => none
  else if tag == "tag:yaml.org,2002:float" then (float? s).map ofFloat
  else if tag == "tag:yaml.org,2002:null" then if isNullWord s then some .null else none
  else some (.str s)

end ApiForge.Yaml

import ApiForge.Decimal.Read
import ApiForge.Json.Basic

/-!
# Reading JSON text

`parse?` accepts exactly one value with white space around it, nested at most 127 levels deep. A repeated key keeps its
first place and its last value. Escaped surrogates must come in pairs. The nesting limit is also what the recursion
runs on: `value` calls itself only for a level less.
-/

namespace ApiForge.Json

open Text Decimal

/-- The text after white space. -/
def skipSpace (cs : List Char) : List Char :=
  cs.dropWhile fun c => c == ' ' || c == '\n' || c == '\r' || c == '\t'

/-- Four hexadecimal digits. -/
def fourHex? : List Char → Option (Nat × List Char)
  | a :: b :: c :: d :: rest => do
    let a ← hexDigit? a
    let b ← hexDigit? b
    let c ← hexDigit? c
    let d ← hexDigit? d
    return (((a * 16 + b) * 16 + c) * 16 + d, rest)
  | _ => none

/-- The character of a `\u` escape, of which the `u` has been read; a surrogate needs its partner. -/
def unicodeEscape? (cs : List Char) : Option (Char × List Char) := do
  let (n, rest) ← fourHex? cs
  if 0xDC00 ≤ n && n ≤ 0xDFFF then none
  else if 0xD800 ≤ n && n ≤ 0xDBFF then
    match rest with
    | '\\' :: 'u' :: more =>
      let (m, rest) ← fourHex? more
      if 0xDC00 ≤ m && m ≤ 0xDFFF then
        return (Char.ofNat (0x10000 + (n - 0xD800) * 0x400 + (m - 0xDC00)), rest)
      else none
    | _ => none
  else return (Char.ofNat n, rest)

/-- The character that a one-letter escape stands for. -/
def simpleEscape? (c : Char) : Option Char :=
  if c == '"' || c == '\\' || c == '/' then some c
  else if c == 'b' then some (Char.ofNat 8)
  else if c == 'f' then some (Char.ofNat 12)
  else if c == 'n' then some '\n'
  else if c == 'r' then some '\r'
  else if c == 't' then some '\t'
  else none

/-- The rest of a string after its opening quote; `fuel` is at least the number of characters left. -/
def stringBody : (fuel : Nat) → List Char → List Char → Option (String × List Char)
  | 0, _, _ => none
  | fuel + 1, acc, cs =>
    match cs with
    | [] => none
    | '"' :: rest => some (String.ofList acc.reverse, rest)
    | '\\' :: 'u' :: rest => do
      let (c, rest) ← unicodeEscape? rest
      stringBody fuel (c :: acc) rest
    | '\\' :: c :: rest => do
      let c ← simpleEscape? c
      stringBody fuel (c :: acc) rest
    | c :: rest => if c.toNat < 32 || c == '\\' then none else stringBody fuel (c :: acc) rest

/-- A significand that grows digit by digit while it fits 64 bits, with the digits left when it no longer fits. -/
def significand : List Char → Nat → Nat × List Char
  | [], n => (n, [])
  | d :: ds, n =>
    let next := n * 10 + (d.toNat - 48)
    if maxUnsigned < next then (n, d :: ds) else significand ds next

/-- The exponent of a number: its sign and digits, or nothing when no `e` follows. -/
def exponentDigits? : List Char → Option (Option (Bool × List Char) × List Char)
  | c :: cs =>
    if c == 'e' || c == 'E' then
      let (negative, cs) := spanSign cs
      let (ds, rest) := spanDigits cs
      if ds.isEmpty then none else some (some (negative, ds), rest)
    else some (none, c :: cs)
  | [] => some (none, [])

/-- A number with a fraction, an exponent or too many digits, from its parts. -/
def floating? (whole fraction : List Char) (exponent : Option (Bool × List Char)) : Option Float :=
  let (n, skipped) := significand whole 0
  let (n, unread) := significand fraction n
  let used : Int := fraction.length - unread.length
  let start : Int := skipped.length - used
  match exponent with
  | none => stepwise n start
  | some (negative, ds) =>
    let e : Int := decimalValue ds
    if 2147483647 < e then
      if n != 0 && !negative then none else some 0.0
    else stepwise n (if negative then start - e else start + e)

/-- A number; the whole part has no leading zero. -/
def number? (cs : List Char) : Option (Number × List Char) := do
  let (negative, cs) := match cs with
    | '-' :: r => (true, r)
    | r => (false, r)
  let (whole, rest) := spanDigits cs
  match whole with
  | [] => none
  | '0' :: _ :: _ => none
  | _ =>
    let (point, fraction, rest) := match rest with
      | '.' :: r => (true, spanDigits r)
      | r => (false, [], r)
    if point && fraction.isEmpty then none
    let (exponent, rest) ← exponentDigits? rest
    let n : Int := decimalValue whole
    if !point && exponent.isNone && (if negative then 0 < n && minSigned ≤ -n else n ≤ maxUnsigned) then
      return (.int (if negative then -n else n), rest)
    let x ← floating? whole fraction exponent
    return (.float (if negative then -x else x), rest)

/-- The items of an array up to its closing bracket, given how one value is read. -/
def itemsTail (one : List Char → Option (Json × List Char)) :
    (fuel : Nat) → List Json → List Char → Option (List Json × List Char)
  | 0, _, _ => none
  | fuel + 1, acc, cs => do
    let (v, rest) ← one cs
    match skipSpace rest with
    | ',' :: rest => itemsTail one fuel (v :: acc) rest
    | ']' :: rest => return ((v :: acc).reverse, rest)
    | _ => none

/-- The members of an object up to its closing brace, given how one value is read. -/
def membersTail (one : List Char → Option (Json × List Char)) :
    (fuel : Nat) → Members → List Char → Option (Members × List Char)
  | 0, _, _ => none
  | fuel + 1, acc, cs =>
    match skipSpace cs with
    | '"' :: rest => do
      let (key, rest) ← stringBody (rest.length + 1) [] rest
      match skipSpace rest with
      | ':' :: rest =>
        let (v, rest) ← one rest
        let acc := Members.insert acc key v
        match skipSpace rest with
        | ',' :: rest => membersTail one fuel acc rest
        | '\x7d' :: rest => return (acc, rest)
        | _ => none
      | _ => none
    | _ => none

/-- One value with at most `levels` levels of nesting, after white space. -/
def value : (levels : Nat) → List Char → Option (Json × List Char)
  | levels, cs =>
    match skipSpace cs with
    | 'n' :: 'u' :: 'l' :: 'l' :: rest => some (null, rest)
    | 't' :: 'r' :: 'u' :: 'e' :: rest => some (bool true, rest)
    | 'f' :: 'a' :: 'l' :: 's' :: 'e' :: rest => some (bool false, rest)
    | '"' :: rest => (stringBody (rest.length + 1) [] rest).map fun (s, r) => (str s, r)
    | '[' :: rest =>
      match levels with
      | 0 => none
      | levels + 1 =>
        match skipSpace rest with
        | ']' :: rest => some (arr [], rest)
        | rest => (itemsTail (value levels) (rest.length + 1) [] rest).map fun (xs, r) => (arr xs, r)
    | '\x7b' :: rest =>
      match levels with
      | 0 => none
      | levels + 1 =>
        match skipSpace rest with
        | '\x7d' :: rest => some (obj [], rest)
        | rest => (membersTail (value levels) (rest.length + 1) [] rest).map fun (ms, r) => (obj ms, r)
    | rest => (number? rest).map fun (n, r) => (num n, r)

/-- The deepest nesting that is read. -/
def maxDepth : Nat := 127

/-- The value of a JSON text. -/
def parse? (s : String) : Option Json := do
  let (v, rest) ← value maxDepth s.toList
  if (skipSpace rest).isEmpty then return v else none

end ApiForge.Json

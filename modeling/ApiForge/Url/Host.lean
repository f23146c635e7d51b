import ApiForge.Text.Basic
import ApiForge.Text.Category
import ApiForge.Text.Percent

/-!
# Hosts

A host is a domain, an IPv4 or an IPv6 address, or an opaque text. Only whether a host is well formed and whether it is
empty is of interest here.

* `domain?` reads the host of a web address.
* `isOpaqueHost` decides whether a text may be the host of another address.

Names beyond ASCII are an approximation of the standard for them (UTS 46). Of its mapping table there are the case, the
full-width forms, the other full stops and the marks that do not show; of its conditions on labels there are the one on
the first character and the one on coded labels. The rules on joiners, on directions and on characters that the table
disallows are left out, so more hosts are taken for well formed than by the standard. No path depends on a host but in
whether it is well formed.
-/

namespace ApiForge.Url

open Text

/-- A control character of ASCII. -/
def isControlAscii (c : Char) : Bool := c.toNat < 0x20 || c.toNat == 0x7F

/-- A character that no host may have. -/
def isForbiddenInHost (c : Char) : Bool :=
  c.toNat == 0 || "\t\n\r #/:<>?@[\\]^|".toList.contains c

/-- A character that no domain may have. -/
def isForbiddenInDomain (c : Char) : Bool := isControlAscii c || "% #/:<>?@[\\]^|".toList.contains c

/-! ## IPv4 -/

/-- A part of an IPv4 address, in base ten, eight or sixteen; `none` inside stands for a part that is too large. -/
def ipv4Part? (cs : List Char) : Option (Option Nat) :=
  let (base, ds) := match cs with
    | '0' :: 'x' :: ds => (16, ds)
    | '0' :: 'X' :: ds => (16, ds)
    | '0' :: d :: ds => (8, d :: ds)
    | ds => (10, ds)
  if cs.isEmpty then none
  else
    let digits := ds.map fun c => (hexDigit? c).filter (· < base)
    if digits.all Option.isSome then
      let n := digits.foldl (fun n d => n * base + d.getD 0) 0
      some (if n < Nat.pow 2 32 then some n else none)
    else none

/-- Whether the last part of a domain makes it an IPv4 address. -/
def endsInNumber (domain : List Char) : Bool :=
  let parts := (pieces '.' domain).reverse
  let last := match parts with
    | [] :: p :: _ => some p
    | [] :: [] => none
    | p :: _ => some p
    | [] => none
  match last with
  | none => false
  | some p => (!p.isEmpty && p.all isDigitAscii) || (ipv4Part? p).isSome

/-- Whether a text is an IPv4 address of at most four parts, of which the last fills the bytes that are left. -/
def isIpv4 (domain : List Char) : Bool :=
  let parts := match (pieces '.' domain).reverse with
    | [] :: ps => ps.reverse
    | ps => ps.reverse
  if 4 < parts.length then false
  else match (parts.mapM fun p => (ipv4Part? p).bind id).map List.reverse with
    | some (last :: before) => last < Nat.pow 256 (4 - before.length) && before.all (· ≤ 255)
    | _ => false

/-! ## IPv6 -/

/-- Whether a text is four decimal numbers below 256 with no superfluous zero, divided by points. -/
def isDottedQuad (cs : List Char) : Bool :=
  let parts := pieces '.' cs
  parts.length == 4 && parts.all fun p =>
    !p.isEmpty && p.all isDigitAscii && p.length ≤ 3 && decimalValue p ≤ 255 && (p.length == 1 || p.head? != some '0')

/-- How many groups of sixteen bits the pieces of one side of an IPv6 address fill. The last piece of the address may be
an IPv4 address, which fills two. -/
def ipv6Groups? (final : Bool) : List (List Char) → Option Nat
  | [] => some 0
  | [p] =>
    if final && p.contains '.' then if isDottedQuad p then some 2 else none
    else if isGroup p then some 1 else none
  | p :: ps => if isGroup p then (ipv6Groups? final ps).map (· + 1) else none
where
  /-- One to four digits in base sixteen. -/
  isGroup (p : List Char) : Bool := !p.isEmpty && p.length ≤ 4 && p.all fun c => (hexDigit? c).isSome

/-- Cuts at the first pair of colons. -/
def cutPair? : List Char → Option (List Char × List Char)
  | ':' :: ':' :: rest => some ([], rest)
  | c :: rest => (cutPair? rest).map fun (a, b) => (c :: a, b)
  | [] => none

/-- The pieces between colons; an empty text has none. -/
def colonPieces (cs : List Char) : List (List Char) := if cs.isEmpty then [] else pieces ':' cs

/-- Whether a text is an IPv6 address: eight groups, or fewer with one pair of colons for the missing ones. -/
def isIpv6 (cs : List Char) : Bool :=
  match cutPair? cs with
  | some (before, after) =>
    match ipv6Groups? false (colonPieces before), ipv6Groups? true (colonPieces after) with
    | some m, some n => m + n ≤ 7
    | _, _ => false
  | none => ipv6Groups? true (colonPieces cs) == some 8

/-! ## Domains -/

/-- The characters that a delta-coded label adds to its `length` plain ones, by the rules of Punycode; their positions
are not kept. -/
def decodePunycode? (ds : List Char) (length : Nat) : Option (List Char) :=
  go (ds.length + 1) ds length 128 0 72 true
where
  /-- The weight of a digit at some place. -/
  threshold (k bias : Nat) : Nat := if k ≤ bias then 1 else if bias + 26 ≤ k then 26 else k - bias
  /-- The value of a digit in base thirty-six. -/
  digit? (c : Char) : Option Nat :=
    if isDigitAscii c then some (c.toNat - 22) else if isLowerAscii c then some (c.toNat - 97) else none
  /-- One number of variable length. -/
  number? : (fuel : Nat) → (k weight acc bias : Nat) → List Char → Option (Nat × List Char)
    | 0, _, _, _, _, _ => none
    | _ + 1, _, _, _, _, [] => none
    | fuel + 1, k, weight, acc, bias, c :: cs =>
      match digit? c with
      | none => none
      | some d =>
        let acc := acc + d * weight
        let t := threshold k bias
        if Nat.pow 2 32 ≤ acc then none
        else if d < t then some (acc, cs)
        else number? fuel (k + 36) (weight * (36 - t)) acc bias cs
  /-- How the weights follow the size of the numbers. -/
  adapt (delta points : Nat) (first : Bool) : Nat :=
    let delta := if first then delta / 700 else delta / 2
    shrink 64 (delta + delta / points) 0
  /-- Divides until the number is small. -/
  shrink : (fuel : Nat) → Nat → Nat → Nat
    | 0, _, k => k
    | fuel + 1, delta, k =>
      if 455 < delta then shrink fuel (delta / 35) (k + 36) else k + 36 * delta / (delta + 38)
  /-- All numbers. -/
  go : (fuel : Nat) → List Char → (length n i bias : Nat) → Bool → Option (List Char)
    | 0, _, _, _, _, _, _ => none
    | _ + 1, [], _, _, _, _, _ => some []
    | fuel + 1, ds, length, n, i, bias, first => do
      let (j, rest) ← number? (ds.length + 1) 36 1 i bias ds
      let point := n + j / (length + 1)
      if 0x10FFFF < point || (0xD800 ≤ point && point ≤ 0xDFFF) then none
      let more ← go fuel rest (length + 1) point (j % (length + 1) + 1) (adapt (j - i) (length + 1) first) false
      return Char.ofNat point :: more

/-- A character beyond ASCII that a domain may have: all but blanks, controls and unassigned ones. -/
def isDomainChar (c : Char) : Bool := c.toNat < 0x80 || !inCategories "WXYZ#$%&" c

/-- Whether a label that says it is coded can be decoded to a text with at least one character beyond ASCII. Capitals
are not coded. -/
def isCodedLabel (rest : List Char) : Bool :=
  let (coded, plain) := match cut? '-' rest.reverse with
    | some (coded, plain) => (coded.reverse, plain.length)
    | none => (rest, 0)
  match decodePunycode? coded plain with
  | some added => !added.isEmpty && added.all fun c => isDomainChar c && !inCategories "AC" c
  | none => false

/-- The form of a character in a domain: full-width letters as ASCII, capitals small, and nothing for marks that do not
show. -/
def domainForm (c : Char) : List Char :=
  let n := c.toNat
  if n == 0xAD || n == 0x200B || n == 0x2060 || n == 0xFEFF || (0xFE00 ≤ n && n ≤ 0xFE0F) then []
  else if n == 0x3002 || n == 0xFF61 then ['.']
  else if 0xFF01 ≤ n && n ≤ 0xFF5E then [lowerChar (Char.ofNat (n - 0xFEE0))]
  else [lowerChar c]

/-- Whether a label is well formed. -/
def isLabel (label : List Char) : Bool :=
  (match label with
    | c :: _ => c.toNat < 0x80 || !inCategories "FGH" c
    | [] => true) &&
    (match afterLead? "xn--".toList label with
      | some rest => isCodedLabel rest
      | none => true)

/-- The domain that a host text stands for; addresses count as domains. -/
def domain? (host : List Char) : Option (List Char) := do
  match host with
  | '[' :: rest =>
    let inner ← beforeTrail? [']'] rest
    if isIpv6 inner then return host else none
  | _ =>
    let decoded ← Utf8.decode? (Percent.decode (Utf8.encode host))
    let domain := decoded.flatMap domainForm
    if domain.isEmpty || domain.any isForbiddenInDomain || !domain.all isDomainChar then none
    else if !(pieces '.' domain).all isLabel then none
    else if endsInNumber domain && !isIpv4 domain then none
    else return domain

/-- Whether a text may be the host of an address that is no web address. -/
def isOpaqueHost (host : List Char) : Bool :=
  match host with
  | '[' :: rest => (beforeTrail? [']'] rest).any isIpv6
  | _ => !host.any isForbiddenInHost

end ApiForge.Url

import ApiForge.Url.Host
import ApiForge.Url.Path

/-!
# Addresses

An absolute address begins with a scheme. What follows is read by the kind of the scheme; only the path is kept.

* `path?` gives the path of an absolute address, or nothing when the text is none.
* `basePath` gives the path under which a server offers its operations.
-/

namespace ApiForge.Url

open Text

/-- The characters that are dropped from an address: tabs and line breaks anywhere, blanks and controls at its ends. -/
def tidy (cs : List Char) : List Char :=
  let isOuter (c : Char) : Bool := c.toNat ≤ 0x20
  let trimmed := ((cs.dropWhile isOuter).reverse.dropWhile isOuter).reverse
  trimmed.filter fun c => c != '\t' && c != '\n' && c != '\r'

/-- The scheme of an address, in lower case, and what follows its colon. -/
def scheme? (cs : List Char) : Option (String × List Char) :=
  match cut? ':' cs with
  | some (c :: s, rest) =>
    if isLetterAscii c && s.all (fun x => isAlnumAscii x || x == '+' || x == '-' || x == '.') then
      some (lowerAscii (String.ofList (c :: s)), rest)
    else none
  | _ => none

/-- The kind of a scheme. -/
def kindOf (scheme : String) : Kind :=
  if ["http", "https", "ws", "wss", "ftp"].contains scheme then .web
  else if scheme == "file" then .file
  else .other

/-- What follows a port, which is at most 65535 and may be left out. -/
def afterPort? (cs : List Char) : Option (List Char) :=
  let digits := cs.takeWhile isDigitAscii
  let rest := cs.dropWhile isDigitAscii
  if 65535 < decimalValue digits then none
  else match rest with
    | [] => some []
    | c :: _ => if c == '/' || c == '\\' || c == '?' || c == '#' then some rest else none

/-- The text up to the end of a host, and the rest; a colon inside brackets belongs to the host. -/
def spanHost (kind : Kind) (inBrackets : Bool) : List Char → List Char × List Char
  | [] => ([], [])
  | c :: cs =>
    if (c == ':' && !inBrackets) || Path.endsSegment kind c then ([], c :: cs)
    else
      let (host, rest) := spanHost kind (if c == '[' then true else if c == ']' then false else inBrackets) cs
      (c :: host, rest)

/-- The path where a host has been read. -/
def pathStart (kind : Kind) (input : List Char) : List Char :=
  match input with
  | c :: rest =>
    if kind.isSpecial then pathAfter kind ['/'] (if c == '/' || c == '\\' then rest else input)
    else if c == '?' || c == '#' then []
    else if c == '/' then pathAfter kind ['/'] rest
    else pathAfter kind ['/'] input
  | [] => if kind.isSpecial then ['/'] else []

/-- The path behind a host with its user and its port. -/
def afterSlashes? (kind : Kind) (input : List Char) : Option (List Char) := do
  let authority := input.takeWhile (!Path.endsSegment kind ·)
  let hasUser := authority.contains '@'
  let hostPart := if hasUser then (authority.reverse.takeWhile (· != '@')).reverse else authority
  let user := authority.take (authority.length - hostPart.length - 1)
  let rest := hostPart ++ input.drop authority.length
  if hasUser && user.isEmpty && hostPart.isEmpty && !(input.drop authority.length).isEmpty then none
  let (host, rest) := spanHost kind false rest
  if kind.isSpecial then
    let _ ← domain? host
  else if !isOpaqueHost host then none
  if host.isEmpty && (rest.head? == some ':' || (hasUser && !user.isEmpty && user != [':'])) then none
  let rest ← match rest with
    | ':' :: r => afterPort? r
    | r => some r
  return pathStart kind rest

/-- The path of a file. -/
def filePath? (input : List Char) : Option (List Char) :=
  let isSlash (c : Char) : Bool := c == '/' || c == '\\'
  match input with
  | a :: b :: rest =>
    if isSlash a && isSlash b then
      let host := rest.takeWhile (!Path.endsSegment .file ·)
      if isDrive host then some (pathAfter .file ['/'] rest)
      else if host.isEmpty || (domain? host).isSome then some (pathStart .file (rest.drop host.length))
      else none
    else some (pathAfter .file ['/'] input)
  | _ => some (pathAfter .file ['/'] input)

/-- The path of an absolute address. -/
def path? (text : String) : Option String := do
  let (scheme, rest) ← scheme? (tidy text.toList)
  let kind := kindOf scheme
  let path ← match kind with
    | .web => afterSlashes? .web (rest.dropWhile fun c => c == '/' || c == '\\')
    | .file => filePath? rest
    | .other =>
      match rest with
      | '/' :: '/' :: r => afterSlashes? .other r
      | '/' :: r => some (pathAfter .other ['/'] r)
      | r => some (Percent.encode isControl (r.takeWhile fun c => c != '?' && c != '#'))
  return String.ofList path

/-- The path under which a server offers its operations, without a slash at its end. An address without a scheme is read
as the end of a web address. -/
def basePath (url : String) : String :=
  match (path? url).orElse fun _ => path? ("http://dummy" ++ url) with
  | some p => String.ofList (dropTrailing '/' p.toList)
  | none => ""

end ApiForge.Url

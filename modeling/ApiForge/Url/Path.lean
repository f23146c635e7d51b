import ApiForge.Text.Basic
import ApiForge.Text.Percent

/-!
# Paths of addresses

A path is normalised while it is read: `.` is dropped, `..` takes the segment before it along, and characters that may
not stand in a path are written as percent codes.

* `Path.read` reads the segments of a path behind what has been read already.
-/

namespace ApiForge.Url

open Text

/-- How an address is read, by its scheme. -/
inductive Kind where
  /-- A web address, which has a host. -/
  | web
  /-- A file. -/
  | file
  /-- Any other address. -/
  | other
  deriving DecidableEq

/-- Whether a backslash divides segments. -/
def Kind.isSpecial : Kind → Bool
  | .other => false
  | _ => true

/-- A character beyond ASCII or a control character. -/
def isControl (c : Char) : Bool := c.toNat < 0x20 || 0x7F ≤ c.toNat

/-- A character that is written as a code in a path. -/
def isEncodedInPath (c : Char) : Bool := isControl c || " \"<>#?\x7b\x7d".toList.contains c || c.toNat == 96

/-- Whether a segment stands for the place itself. -/
def isDot (segment : List Char) : Bool := [".", "%2e"].contains (lowerAscii (String.ofList segment))

/-- Whether a segment stands for the place above. -/
def isDotDot (segment : List Char) : Bool :=
  ["..", "%2e.", ".%2e", "%2e%2e"].contains (lowerAscii (String.ofList segment))

/-- A letter and a colon or a bar. -/
def isDrive : List Char → Bool
  | [a, b] => isLetterAscii a && (b == ':' || b == '|')
  | _ => false

/-- A letter and a colon. -/
def isPlainDrive (segment : List Char) : Bool := isDrive segment && segment.getLast? == some ':'

/-- Whether a path begins, after its slash, with a drive. -/
def startsWithDrive : List Char → Bool
  | '/' :: a :: b :: rest =>
    isDrive [a, b] && (match rest with
      | [] => true
      | c :: _ => c == '/' || c == '\\' || c == '?' || c == '#')
  | _ => false

namespace Path

/-- The part of a path up to and including its last slash. -/
def toLastSlash (path : List Char) : List Char := (path.reverse.dropWhile (· != '/')).reverse

/-- Removes the last segment, but not a drive. -/
def shorten (kind : Kind) (path : List Char) : List Char :=
  let kept := toLastSlash path
  if kind == .file && (isPlainDrive path || isPlainDrive (path.drop kept.length)) then path else kept

/-- The path after `..`, which has been read up to the segment before; `slash` tells whether a slash follows. -/
def climb (kind : Kind) (slash : Bool) (path : List Char) : List Char :=
  let before := path.dropLast
  let removable := path.getLast? == some '/' && before.contains '/' &&
    !startsWithDrive (path.drop ((toLastSlash before).length - 1))
  let shortened := shorten kind (if removable then before else path)
  if slash && shortened.getLast? != some '/' then shortened ++ ['/'] else shortened

/-- Whether a character ends a segment. -/
def endsSegment (kind : Kind) (c : Char) : Bool := c == '/' || c == '?' || c == '#' || (c == '\\' && kind.isSpecial)

/-- Puts a segment behind a path. -/
def push (kind : Kind) (path segment : List Char) (slash : Bool) : List Char :=
  let ending : List Char := if slash then ['/'] else []
  if isDotDot segment then climb kind slash path
  else if isDot segment then if path.getLast? == some '/' then path else path ++ ['/']
  else if kind == .file && 1 < path.length + segment.length + ending.length && isDrive segment then
    path ++ segment.take 1 ++ [':'] ++ ending
  else path ++ segment ++ ending

/-- Reads segments up to the query or the fragment. -/
def read (kind : Kind) : (fuel : Nat) → (path input : List Char) → List Char
  | 0, path, _ => path
  | fuel + 1, path, input =>
    let raw := input.takeWhile (!endsSegment kind ·)
    let segment := Percent.encode isEncodedInPath raw
    match input.drop raw.length with
    | c :: rest =>
      if c == '?' || c == '#' then push kind path segment false
      else read kind fuel (push kind path segment true) rest
    | [] => push kind path segment false

/-- A path of a file has one slash in front. -/
def ofFile (path : List Char) : List Char := '/' :: path.dropWhile (· == '/')

end Path

/-- The path of `input` behind `path`. -/
def pathAfter (kind : Kind) (path input : List Char) : List Char :=
  let p := Path.read kind (input.length + 1) path input
  if kind == .file then Path.ofFile p else p

end ApiForge.Url

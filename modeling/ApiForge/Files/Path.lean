import ApiForge.Text.Basic

/-!
# File paths

Paths are texts with slashes. Empty parts and `.` inside a path do not count, except that a leading `.` stays.

* `Path.parts` gives the parts of a path that count.
* `Path.parent?`, `Path.fileName?` and `Path.extension?` look at the last part.
* `Path.join` puts a path behind another.
-/

namespace ApiForge.Files.Path

open Text

/-- Whether a path begins at the root. -/
def isAbsolute (path : String) : Bool := startsWith "/" path

/-- The parts of a path that count, without the root. -/
def parts (path : String) : List String :=
  match split '/' path with
  | "." :: rest => "." :: counted rest
  | all => counted all
where
  /-- Drops what does not count. -/
  counted (ps : List String) : List String := ps.filter fun p => p != "" && p != "."

/-- The last part, if it names a file or a directory. -/
def fileName? (path : String) : Option String :=
  (parts path).getLast?.filter fun p => p != ".." && p != "."

/-- The file name before its last point and after it; a point in front does not divide. -/
def splitName? (name : String) : Option (String × String) :=
  match cut? '.' name.toList.reverse with
  | some (after, before) =>
    if before.isEmpty then none else some (String.ofList before.reverse, String.ofList after.reverse)
  | none => none

/-- What follows the last point of the file name. -/
def extension? (path : String) : Option String := (fileName? path).bind fun n => (splitName? n).map (·.2)

/-- Removes the parts at the end that do not count, and slashes, down to what has to stay. -/
def trimEnd (keep : List Char) : (fuel : Nat) → List Char → List Char
  | 0, cs => cs
  | fuel + 1, cs =>
    if cs.length ≤ keep.length then cs
    else match cs.reverse with
      | '/' :: r => trimEnd keep fuel r.reverse
      | '.' :: '/' :: r => trimEnd keep fuel ('/' :: r).reverse
      | _ => cs

/-- The path without its last part. The root and the empty path have none. -/
def parent? (path : String) : Option String :=
  match (parts path).getLast? with
  | none => none
  | some _ =>
    let keep : List Char := if isAbsolute path then ['/'] else []
    let trimmed := trimEnd keep (path.length + 1) path.toList
    let before := (trimmed.reverse.dropWhile (· != '/')).reverse
    some (String.ofList (trimEnd keep (path.length + 1) before))

/-- Puts a path behind a directory; an absolute one takes its place. -/
def join (directory path : String) : String :=
  if isAbsolute path || directory.isEmpty then path
  else if (dropTrail? "/" directory).isSome then directory ++ path
  else directory ++ "/" ++ path

end ApiForge.Files.Path

import ApiForge.LineDiff.Edit

/-!
# Unified diffs

The edits of a script in groups with three lines of context, each group under a line that gives its ranges.
-/

namespace ApiForge.LineDiff

/-- The result of comparing two named texts. -/
structure Comparison where
  left : String
  right : String
  unified : String
  insertions : Nat
  deletions : Nat

/-- Whether the two texts have the same lines. -/
def Comparison.isIdentical (c : Comparison) : Bool := c.insertions == 0 && c.deletions == 0

/-- The number of unchanged lines around a change. -/
def context : Nat := 3

/-- The first edit without the equal lines too far above a change. -/
def trimFirst : List Edit → List Edit
  | [] => []
  | e :: es =>
    if e.kind == .equal then
      let cut := e.oldLen - context
      ⟨.equal, e.old + cut, e.oldLen - cut, e.new + cut, e.newLen - cut⟩ :: es
    else e :: es

/-- The last edit without the equal lines too far below a change. -/
def trimLast (es : List Edit) : List Edit :=
  match es.reverse with
  | [] => []
  | e :: before =>
    if e.kind == .equal then
      let cut := e.oldLen - context
      ({ e with oldLen := e.oldLen - cut, newLen := e.newLen - cut } :: before).reverse
    else es

/-- Cuts a script into groups at long runs of equal lines; `group` holds the current group backwards. -/
def cutGroups (group : List Edit) : List Edit → List (List Edit)
  | [] => match group with
    | [] => []
    | [e] => if e.kind == .equal then [] else [[e]]
    | es => [es.reverse]
  | e :: es =>
    if e.kind == .equal && 2 * context < e.oldLen then
      let cut := e.oldLen - context
      (.equal e.old e.new context :: group).reverse ::
        cutGroups [.equal (e.old + cut) (e.new + cut) context] es
    else cutGroups (e :: group) es

/-- The groups of a script. -/
def groups (es : List Edit) : List (List Edit) := cutGroups [] (trimLast (trimFirst es))

/-- A range of lines: the first line and their number; an empty range names the line before it. -/
def rangeText (start stop : Nat) : String :=
  let len := stop - start
  if len == 1 then toString (start + 1)
  else if len == 0 then s!"{start},0"
  else s!"{start + 1},{len}"

/-- The line above a group. -/
def hunkHeader (first last : Edit) : String :=
  "@@ -" ++ rangeText first.old last.oldEnd ++ " +" ++ rangeText first.new last.newEnd ++ " @@\n"

/-- A line with its mark; a line without an end is pointed out. -/
def markedLine (mark line : String) : String :=
  mark ++ line ++ (if isClosed line then "" else "\n\\ No newline at end of file\n")

/-- Consecutive lines of one side. -/
def slice (lines : Array String) (start len : Nat) : List String :=
  (List.range len).filterMap fun i => lines[start + i]?

/-- The lines of an edit, deletions first. -/
def editLines (old new : Array String) (e : Edit) : List String :=
  if e.kind == .equal then (slice old e.old e.oldLen).map (markedLine " ")
  else (slice old e.old e.oldLen).map (markedLine "-") ++ (slice new e.new e.newLen).map (markedLine "+")

/-- A group under its header. -/
def hunk (old new : Array String) (group : List Edit) : String :=
  match group.head?, group.getLast? with
  | some first, some last => hunkHeader first last ++ String.join (group.flatMap (editLines old new))
  | _, _ => ""

/-- Compares two texts line by line. -/
def compare (leftName left rightName right : String) : Comparison :=
  let old := fullLines left
  let new := fullLines right
  let script := Script.grouped old new
  let changes := script.filter (·.kind != .equal)
  let unified :=
    if changes.isEmpty then ""
    else s!"--- {leftName}\n+++ {rightName}\n" ++ String.join ((groups script).map (hunk old new))
  ⟨leftName, rightName, unified, changes.foldl (· + ·.newLen) 0, changes.foldl (· + ·.oldLen) 0⟩

end ApiForge.LineDiff

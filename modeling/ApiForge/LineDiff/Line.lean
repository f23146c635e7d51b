/-!
# Lines with their ends

A line ends with `\n`, with `\r\n` or with a lone `\r`, and keeps its end; only the last line may have none.
-/

namespace ApiForge.LineDiff

/-- The lines of a text, where `line` holds the characters of the current line backwards. -/
def linesFrom (line : List Char) : List Char → List String
  | [] => if line.isEmpty then [] else [String.ofList line.reverse]
  | '\r' :: '\n' :: cs => String.ofList ('\n' :: '\r' :: line).reverse :: linesFrom [] cs
  | c :: cs =>
    if c == '\n' || c == '\r' then String.ofList (c :: line).reverse :: linesFrom [] cs
    else linesFrom (c :: line) cs

/-- The lines of a text with their ends. -/
def fullLines (text : String) : Array String := (linesFrom [] text.toList).toArray

/-- Whether a line has an end. -/
def isClosed (line : String) : Bool :=
  match line.toList.getLast? with
  | some c => c == '\n' || c == '\r'
  | none => false

end ApiForge.LineDiff

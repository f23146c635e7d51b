/-!
# Cutting and joining text

Texts are handled as lists of characters here; the versions on `String` only convert at both ends.

* `pieces` cuts at every separator and never returns an empty list.
* `cut?` cuts at the first separator.
* `afterLead?` and `beforeTrail?` remove a given beginning or end.
* `lines` cuts into lines without their terminators.
-/

namespace ApiForge.Text

/-- The runs of characters between the occurrences of `sep`, in order. -/
def pieces (sep : Char) : List Char → List (List Char)
  | [] => [[]]
  | c :: cs =>
    if c = sep then [] :: pieces sep cs
    else match pieces sep cs with
      | [] => [[c]]
      | p :: ps => (c :: p) :: ps

/-- The parts before and after the first `sep`. -/
def cut? (sep : Char) : List Char → Option (List Char × List Char)
  | [] => none
  | c :: cs => if c = sep then some ([], cs) else (cut? sep cs).map fun (a, b) => (c :: a, b)

/-- What follows `lead` in a text that begins with it. -/
def afterLead? : (lead text : List Char) → Option (List Char)
  | [], cs => some cs
  | _ :: _, [] => none
  | a :: as, c :: cs => if a = c then afterLead? as cs else none

/-- What precedes `trail` in a text that ends with it. -/
def beforeTrail? (trail text : List Char) : Option (List Char) :=
  (afterLead? trail.reverse text.reverse).map List.reverse

/-- Removes every `c` at the end. -/
def dropTrailing (c : Char) (cs : List Char) : List Char :=
  (cs.reverse.dropWhile (· == c)).reverse

/-- The lists joined by `sep`. -/
def joinWith (sep : List Char) : List (List Char) → List Char
  | [] => []
  | [p] => p
  | p :: ps => p ++ sep ++ joinWith sep ps

/-- Removes one carriage return at the end. -/
def dropReturn (cs : List Char) : List Char :=
  match cs.reverse with
  | '\r' :: r => r.reverse
  | _ => cs

/-- The lines of a text: cut after each `\n`, without `\n` or `\r\n`; an empty last line does not count. -/
def lines (cs : List Char) : List (List Char) :=
  match (pieces '\n' cs).reverse with
  | [] => []
  | last :: before =>
    let closed := before.reverse.map dropReturn
    if last.isEmpty then closed else closed ++ [last]

/-- `pieces` on strings. -/
def split (sep : Char) (s : String) : List String :=
  (pieces sep s.toList).map String.ofList

/-- `cut?` on strings. -/
def splitOnce? (sep : Char) (s : String) : Option (String × String) :=
  (cut? sep s.toList).map fun (a, b) => (String.ofList a, String.ofList b)

/-- `afterLead?` on strings. -/
def dropLead? (lead s : String) : Option String :=
  (afterLead? lead.toList s.toList).map String.ofList

/-- `beforeTrail?` on strings. -/
def dropTrail? (trail s : String) : Option String :=
  (beforeTrail? trail.toList s.toList).map String.ofList

/-- Whether `s` begins with `lead`. -/
def startsWith (lead s : String) : Bool := (dropLead? lead s).isSome

/-- `lines` on strings. -/
def linesOf (s : String) : List String := (lines s.toList).map String.ofList

/-- The items separated by a comma and a blank. -/
def commaList (items : List String) : String := String.intercalate ", " items

/-- The text with every `c` replaced by `by_`. -/
def replaceChar (c : Char) (by_ : String) (s : String) : String :=
  String.join (s.toList.map fun x => if x = c then by_ else String.singleton x)

end ApiForge.Text

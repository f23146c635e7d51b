import ApiForge.Text.Basic
import ApiForge.Text.Percent

/-!
# Form data

A query is a list of names and values. Pairs are divided by `&`, a name from its value by the first `=`; `+` stands
for a blank, and bytes may be written as percent codes.
-/

namespace ApiForge.Http

open Text

/-- The text that a part of a query stands for. -/
def decodePart (cs : List Char) : String :=
  let blanks := cs.map fun c => if c == '+' then ' ' else c
  String.ofList (Utf8.decodeLossy (Percent.decode (Utf8.encode blanks)))

/-- The name and the value of a piece of a query; without a `=` the value is empty. -/
def decodePair (piece : List Char) : String × String :=
  match cut? '=' piece with
  | some (name, value) => (decodePart name, decodePart value)
  | none => (decodePart piece, "")

/-- The names and values of a query, in order; empty pieces do not count. -/
def parseQuery (query : String) : List (String × String) :=
  ((pieces '&' query.toList).filter (!·.isEmpty)).map decodePair

end ApiForge.Http

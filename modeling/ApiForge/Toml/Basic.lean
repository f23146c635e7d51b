/-!
# TOML values

Settings consist of texts, lists and tables; there are no numbers, truth values or dates among them, so these have no
place here. A table remembers how it came to be, because this decides whether it may still be extended.

* `insertDotted` adds a value under a dotted key.
* `openTable` begins a table by its header.
-/

namespace ApiForge

/-- How a table came to be. -/
inductive TableOrigin where
  /-- It is on the way to a table with a header. -/
  | implied
  /-- It is on the way along a dotted key. -/
  | dotted
  /-- It has a header of its own. -/
  | header
  /-- It is written in braces. -/
  | inline
  deriving DecidableEq

/-- A value. -/
inductive Toml where
  | text (value : String)
  | list (items : List Toml)
  | table (origin : TableOrigin) (entries : List (String × Toml))

namespace Toml

/-- The entries of a table, in order. -/
abbrev Entries := List (String × Toml)

/-- The value of a key. -/
def find? (es : Entries) (key : String) : Option Toml := (es.find? (·.1 == key)).map (·.2)

/-- Replaces the value of a key that is there. -/
def replace (es : Entries) (key : String) (value : Toml) : Entries :=
  es.map fun e => if e.1 == key then (key, value) else e

/-- Adds a value under a dotted key; nothing when the key is taken or leads through a table that is complete. -/
def insertDotted : List String → Toml → Entries → Option Entries
  | [], _, _ => none
  | [k], v, es => if (find? es k).isSome then none else some (es ++ [(k, v)])
  | k :: ks, v, es =>
    match find? es k with
    | none => (insertDotted ks v []).map fun sub => es ++ [(k, .table .dotted sub)]
    | some (.table origin sub) =>
      if origin == .implied || origin == .dotted then
        (insertDotted ks v sub).map fun sub => replace es k (.table origin sub)
      else none
    | some _ => none

/-- Begins the table of a header; nothing when there is one already. -/
def openTable : List String → Entries → Option Entries
  | [], _ => none
  | [k], es =>
    match find? es k with
    | none => some (es ++ [(k, .table .header [])])
    | some (.table .implied sub) => some (replace es k (.table .header sub))
    | some _ => none
  | k :: ks, es =>
    match find? es k with
    | none => (openTable ks []).map fun sub => es ++ [(k, .table .implied sub)]
    | some (.table origin sub) =>
      if origin == .inline then none else (openTable ks sub).map fun sub => replace es k (.table origin sub)
    | some _ => none

/-- Changes the entries of the table at a path. -/
def updateAt (change : Entries → Option Entries) : List String → Entries → Option Entries
  | [], es => change es
  | k :: ks, es =>
    match find? es k with
    | some (.table origin sub) => (updateAt change ks sub).map fun sub => replace es k (.table origin sub)
    | _ => none

end Toml

end ApiForge

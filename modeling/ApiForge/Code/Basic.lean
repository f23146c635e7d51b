/-!
# Generated source as data

Nothing assembles source text by hand: declarations are built from these types and laid out by the printer.

* `TypeExpr`, `Expression`, `Statement` and `Meta` are the inline and block forms.
* `Declaration` is a type, a function, an implementation block or a constant.
* `File` is a complete unit: imports and declarations in order.
-/

namespace ApiForge.Code

/-- A type as it occurs in fields, parameters and results. -/
inductive TypeExpr where
  | named (name : String)
  | generic (name : String) (args : List TypeExpr)
  | ref (lifetime : Option String) (inner : TypeExpr)
  | slice (inner : TypeExpr)
  | tuple (items : List TypeExpr)
  deriving Inhabited

namespace TypeExpr

/-- A type whose value may be missing. -/
def option (inner : TypeExpr) : TypeExpr := generic "Option" [inner]

/-- A growable list. -/
def vec (inner : TypeExpr) : TypeExpr := generic "Vec" [inner]

/-- A reference that lives as long as the program. -/
def staticRef (inner : TypeExpr) : TypeExpr := ref (some "static") inner

/-- Whether the type is an optional one. -/
def isOption : TypeExpr → Bool
  | generic name _ => name == "Option"
  | _ => false

end TypeExpr

/-- A literal value. -/
inductive Literal where
  | str (value : String)
  | int (value : Int)
  | float (value : Float)
  | bool (value : Bool)

/-- A binary operator. -/
inductive BinOp where
  | eq
  | ne
  | and
  | or
  deriving DecidableEq

/-- The written form of an operator. -/
def BinOp.token : BinOp → String
  | eq => "=="
  | ne => "!="
  | and => "&&"
  | or => "||"

/-- An expression. -/
inductive Expression where
  | lit (value : Literal)
  /-- A path or a local name. -/
  | path (name : String)
  | call (func : String) (args : List Expression)
  | method (receiver : Expression) (name : String) (args : List Expression)
  | field (base : Expression) (name : String)
  /-- A record literal. -/
  | record (name : String) (fields : List (String × Expression))
  | borrow (inner : Expression)
  | array (items : List Expression)
  | tuple (items : List Expression)
  | binary (op : BinOp) (lhs rhs : Expression)
  | not (inner : Expression)
  deriving Inhabited

/-- A string literal. -/
def Expression.str (s : String) : Expression := lit (.str s)

/-- An integer literal. -/
def Expression.int (n : Int) : Expression := lit (.int n)

/-- A statement of a function body. -/
inductive Statement where
  | bind (name : String) (isMutable : Bool) (value : Expression)
  | expr (value : Expression)
  /-- The expression that gives the block its value. -/
  | tail (value : Expression)
  | ret (value : Option Expression)
  | cond (test : Expression) (yes : List Statement) (no : Option (List Statement))
  /-- Runs the block when the value matches the pattern. -/
  | condLet (pattern : String) (value : Expression) (yes : List Statement)
  deriving Inhabited

/-- The content of an attribute. -/
inductive Meta where
  | path (name : String)
  | nameValue (name : String) (value : Expression)
  | list (name : String) (items : List Meta)
  | value (value : Expression)
  deriving Inhabited

namespace Meta

/-- The attribute that derives traits. -/
def derive (traits : List String) : Meta := list "derive" (traits.map path)

/-- The attribute that renames a field or variant on the wire. -/
def rename (wire : String) : Meta := list "serde" [nameValue "rename" (.str wire)]

end Meta

/-- A record field. -/
structure Field where
  name : String
  type : TypeExpr
  docs : List String := []
  attrs : List Meta := []

/-- A variant of an enumeration. -/
structure Variant where
  name : String
  attrs : List Meta := []

/-- The shape of a type declaration. -/
inductive TypeShape where
  | record (fields : List Field)
  | enumeration (variants : List Variant)
  | alias (target : TypeExpr)

/-- A type declaration. -/
structure TypeDecl where
  name : String
  docs : List String := []
  attrs : List Meta := []
  shape : TypeShape

/-- The fields of a record; other types have none. -/
def TypeDecl.fields (t : TypeDecl) : List Field :=
  match t.shape with
  | .record fields => fields
  | _ => []

/-- How a function takes the value it belongs to. -/
inductive Receiver where
  | none
  | byRef
  | byValue
  deriving DecidableEq

/-- A function. -/
structure Func where
  name : String
  docs : List String := []
  isPublic : Bool := true
  receiver : Receiver := .none
  params : List (String × TypeExpr) := []
  result : Option TypeExpr := none
  body : List Statement := []

/-- A block of functions that belong to a type, possibly for a trait. -/
structure ImplBlock where
  target : String
  traitName : Option String := none
  funcs : List Func

/-- A constant. -/
structure Constant where
  name : String
  docs : List String := []
  type : TypeExpr
  value : Expression

/-- A top-level declaration. -/
inductive Declaration where
  | type (decl : TypeDecl)
  | func (decl : Func)
  | impl (block : ImplBlock)
  | const (decl : Constant)

/-- The name that a declaration takes; implementation blocks take none. -/
def Declaration.name? : Declaration → Option String
  | type t => some t.name
  | func f => some f.name
  | impl _ => none
  | const c => some c.name

/-- One module with the items imported from it. -/
structure Import where
  module : String
  items : List String
  deriving DecidableEq

/-- A complete unit of generated source. -/
structure File where
  name : String
  imports : List Import
  declarations : List Declaration

namespace File

/-- The type declaration with a given name. -/
def typeDecl? (f : File) (name : String) : Option TypeDecl :=
  f.declarations.findSome? fun
    | .type t => if t.name == name then some t else none
    | _ => none

/-- The implementation blocks of a type. -/
def implsFor (f : File) (target : String) : List ImplBlock :=
  f.declarations.filterMap fun
    | .impl b => if b.target == target then some b else none
    | _ => none

/-- The constant with a given name. -/
def const? (f : File) (name : String) : Option Constant :=
  f.declarations.findSome? fun
    | .const c => if c.name == name then some c else none
    | _ => none

end File

end ApiForge.Code

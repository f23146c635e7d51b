import ApiForge.Code.Basic
import ApiForge.Decimal.Layout
import ApiForge.Text.Basic
import ApiForge.Text.Literal

/-!
# Source text

Inline forms are written as text; block forms are lists of lines, indented by four blanks per level.

* `TypeExpr.text`, `Expression.text` and `Meta.text` write inline forms.
* `Declaration.lines` lays out a declaration, `File.render` a file.
-/

namespace ApiForge.Code

open Text

/-! ## Inline forms -/

mutual

/-- The text of a type. -/
def TypeExpr.text : TypeExpr → String
  | .named name => name
  | .generic name args => name ++ "<" ++ commaList (TypeExpr.texts args) ++ ">"
  | .ref (some lifetime) inner => "&'" ++ lifetime ++ " " ++ inner.text
  | .ref none inner => "&" ++ inner.text
  | .slice inner => "[" ++ inner.text ++ "]"
  | .tuple items => "(" ++ commaList (TypeExpr.texts items) ++ ")"

/-- The texts of several types. -/
def TypeExpr.texts : List TypeExpr → List String
  | [] => []
  | t :: ts => t.text :: TypeExpr.texts ts

end

/-- The text of a literal. -/
def Literal.text : Literal → String
  | .str s => Text.literal s
  | .int n => toString n
  | .float x => Decimal.Layout.source.write x
  | .bool b => if b then "true" else "false"

/-- Whether an expression is put in parentheses as an operand. -/
def Expression.needsParens : Expression → Bool
  | .binary _ _ _ => true
  | .not _ => true
  | .borrow _ => true
  | _ => false

/-- Puts a text in parentheses. -/
def parenthesize (needed : Bool) (text : String) : String := if needed then "(" ++ text ++ ")" else text

mutual

/-- The text of an expression. -/
def Expression.text : Expression → String
  | .lit value => value.text
  | .path name => name
  | .call func args => func ++ "(" ++ commaList (Expression.texts args) ++ ")"
  | .method receiver name args =>
    parenthesize receiver.needsParens receiver.text ++ "." ++ name ++ "(" ++ commaList (Expression.texts args) ++ ")"
  | .field base name => parenthesize base.needsParens base.text ++ "." ++ name
  | .record name [] => name ++ " \x7b\x7d"
  | .record name (f :: fs) => name ++ " \x7b " ++ commaList (Expression.fieldTexts (f :: fs)) ++ " \x7d"
  | .borrow inner => "&" ++ parenthesize inner.needsParens inner.text
  | .array items => "[" ++ commaList (Expression.texts items) ++ "]"
  | .tuple items => "(" ++ commaList (Expression.texts items) ++ ")"
  | .binary op lhs rhs =>
    parenthesize lhs.needsParens lhs.text ++ " " ++ op.token ++ " " ++ parenthesize rhs.needsParens rhs.text
  | .not inner => "!" ++ parenthesize inner.needsParens inner.text

/-- The texts of several expressions. -/
def Expression.texts : List Expression → List String
  | [] => []
  | e :: es => e.text :: Expression.texts es

/-- The fields of a record literal. -/
def Expression.fieldTexts : List (String × Expression) → List String
  | [] => []
  | (k, e) :: fs => (k ++ ": " ++ e.text) :: Expression.fieldTexts fs

end

mutual

/-- The text of an attribute's content. -/
def Meta.text : Meta → String
  | .path name => name
  | .nameValue name v => name ++ " = " ++ v.text
  | .list name items => name ++ "(" ++ commaList (Meta.texts items) ++ ")"
  | .value v => v.text

/-- The texts of several contents. -/
def Meta.texts : List Meta → List String
  | [] => []
  | m :: ms => m.text :: Meta.texts ms

end

/-- The text of an attribute. -/
def Meta.attribute (m : Meta) : String := "#[" ++ m.text ++ "]"

/-! ## Blocks -/

/-- Lines one level deeper. -/
def indent (lines : List String) : List String := lines.map ("    " ++ ·)

/-- One line of documentation. -/
def docLine (line : String) : String := if line.isEmpty then "///" else "/// " ++ line

/-- Documentation, a comment line for each line of text. -/
def docLines (docs : List String) : List String := docs.flatMap fun d => (linesOf d).map docLine

/-- Attributes, one per line. -/
def attrLines (attrs : List Meta) : List String := attrs.map Meta.attribute

/-- A head with an opening brace, indented lines and a closing brace. -/
def braces (head : String) (body : List String) : List String :=
  (head ++ " \x7b") :: indent body ++ ["\x7d"]

mutual

/-- The lines of a statement. -/
def Statement.lines : Statement → List String
  | .bind name isMutable value =>
    ["let " ++ (if isMutable then "mut " else "") ++ name ++ " = " ++ value.text ++ ";"]
  | .expr value => [value.text ++ ";"]
  | .tail value => [value.text]
  | .ret none => ["return;"]
  | .ret (some value) => ["return " ++ value.text ++ ";"]
  | .cond test yes none => braces ("if " ++ test.text) (Statement.block yes)
  | .cond test yes (some no) =>
    ("if " ++ test.text ++ " \x7b") :: indent (Statement.block yes) ++
      "\x7d else \x7b" :: indent (Statement.block no) ++ ["\x7d"]
  | .condLet pattern value yes => braces ("if let " ++ pattern ++ " = " ++ value.text) (Statement.block yes)

/-- The lines of a block. -/
def Statement.block : List Statement → List String
  | [] => []
  | s :: ss => s.lines ++ Statement.block ss

end

/-- The lines of a record field. -/
def Field.lines (f : Field) : List String :=
  docLines f.docs ++ attrLines f.attrs ++ ["pub " ++ f.name ++ ": " ++ f.type.text ++ ","]

/-- The lines of a variant. -/
def Variant.lines (v : Variant) : List String := attrLines v.attrs ++ [v.name ++ ","]

/-- The lines of a type declaration. -/
def TypeDecl.lines (t : TypeDecl) : List String :=
  docLines t.docs ++ attrLines t.attrs ++ match t.shape with
    | .record [] => ["pub struct " ++ t.name ++ " \x7b\x7d"]
    | .record fields => braces ("pub struct " ++ t.name) (fields.flatMap Field.lines)
    | .enumeration variants => braces ("pub enum " ++ t.name) (variants.flatMap Variant.lines)
    | .alias target => ["pub type " ++ t.name ++ " = " ++ target.text ++ ";"]

/-- The parameters of a function, with its receiver first. -/
def Func.paramTexts (f : Func) : List String :=
  (match f.receiver with
    | .none => []
    | .byRef => ["&self"]
    | .byValue => ["self"]) ++ f.params.map fun p => p.1 ++ ": " ++ p.2.text

/-- The head of a function. -/
def Func.signature (f : Func) (isPublic : Bool) : String :=
  (if isPublic then "pub " else "") ++ "fn " ++ f.name ++ "(" ++ commaList f.paramTexts ++ ")" ++
    match f.result with
    | some t => " -> " ++ t.text
    | none => ""

/-- The lines of a function. -/
def Func.lines (f : Func) (isPublic : Bool) : List String :=
  docLines f.docs ++
    if f.body.isEmpty then [f.signature isPublic ++ " \x7b\x7d"]
    else braces (f.signature isPublic) (Statement.block f.body)

/-- Groups of lines with an empty line between two groups. -/
def spaced : List (List String) → List String
  | [] => []
  | [g] => g
  | g :: gs => g ++ "" :: spaced gs

/-- The lines of an implementation block; functions of a trait take its visibility. -/
def ImplBlock.lines (b : ImplBlock) : List String :=
  let head := match b.traitName with
    | some t => "impl " ++ t ++ " for " ++ b.target
    | none => "impl " ++ b.target
  braces head (spaced (b.funcs.map fun f => f.lines (f.isPublic && b.traitName.isNone)))

/-- The lines of a constant. -/
def Constant.lines (c : Constant) : List String :=
  docLines c.docs ++ ["pub const " ++ c.name ++ ": " ++ c.type.text ++ " = " ++ c.value.text ++ ";"]

/-- The lines of a declaration. -/
def Declaration.lines : Declaration → List String
  | .type t => t.lines
  | .func f => f.lines f.isPublic
  | .impl b => b.lines
  | .const c => c.lines

/-- The text of a declaration, without a line break at the end. -/
def Declaration.render (d : Declaration) : String := String.intercalate "\n" d.lines

/-! ## Files -/

/-- The line of an import. -/
def Import.render (i : Import) : String :=
  match i.items with
  | [] => "use " ++ i.module ++ ";"
  | [item] => "use " ++ i.module ++ "::" ++ item ++ ";"
  | items => "use " ++ i.module ++ "::\x7b" ++ commaList items ++ "\x7d;"

/-- The first lines of every file. -/
def File.header (f : File) : List String :=
  ["// Code generated by brrtgen from " ++ f.name ++ ". DO NOT EDIT.", "#![allow(clippy::all)]"]

/-- The text of a file: header, imports, and each declaration after an empty line. -/
def File.render (f : File) : String :=
  String.intercalate "\n" (f.header ++ f.imports.map Import.render ++
    f.declarations.flatMap fun d => ["", d.render]) ++ "\n"

end ApiForge.Code

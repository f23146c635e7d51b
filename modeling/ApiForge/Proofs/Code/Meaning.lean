import ApiForge.Code.Basic
import Mathlib.Data.List.Forall2

/-!
# What generated functions do

The meaning of the forms that generated function bodies are made of: numbers, locals, `Some` and `None`, empty lists,
fields, record literals, `is_some`, `push`, bindings, conditions, and the expression at the end of a block. Other forms
have none.

* `Expression.eval`: the value of an expression, and the locals after it.
* `Statement.run`: the value of a block, and the locals after it.
* `Func.call`: what a function gives; `callFunc` and `callMethod` find it among declarations.
* `Value.InstanceOf`: the values of a declared record.
-/

namespace ApiForge.Code

/-- A value of generated code. -/
inductive Value where
  | unit
  | bool (b : Bool)
  | int (n : Int)
  | text (s : String)
  /-- An optional value that is missing. -/
  | absent
  /-- An optional value that is there. -/
  | present (value : Value)
  | vec (items : List Value)
  | record (type : String) (fields : List (String × Value))

namespace Value

/-- A field of a record. -/
def field? : Value → String → Option Value
  | record _ fields, name => fields.lookup name
  | _, _ => none

/-- Whether a field holds an optional value that is there. -/
def fills (v : Value) (name : String) : Bool :=
  match v.field? name with
  | some (present _) => true
  | _ => false

/-- A number without sign as a value. -/
def ofNat (n : Nat) : Value := int n

/-- The truth value of a condition. -/
def bool? : Value → Option Bool
  | bool b => some b
  | _ => none

/-- A number without sign. -/
def nat? : Value → Option Nat
  | int (.ofNat n) => some n
  | _ => none

/-- A list of numbers without sign. -/
def nats? : Value → Option (List Nat)
  | vec items => items.mapM nat?
  | _ => none

/-- The values of a type, as far as optional values and status codes are told apart. -/
def HasType (v : Value) : TypeExpr → Prop
  | .named "u16" => v.nat?.isSome
  | .generic "Option" _ => v = absent ∨ ∃ w, v = present w
  | _ => True

/-- The values of a declared record: every field has a value of its type. -/
def InstanceOf (v : Value) (decl : TypeDecl) : Prop :=
  ∃ fields, v = record decl.name fields ∧
    List.Forall₂ (fun (f : Field) (x : String × Value) => x.1 = f.name ∧ x.2.HasType f.type) decl.fields fields

theorem lookup_of_forall₂ {fields : List Field} {values : List (String × Value)}
    (h : List.Forall₂ (fun (f : Field) (x : String × Value) => x.1 = f.name ∧ x.2.HasType f.type) fields values)
    (hdistinct : (fields.map (·.name)).Nodup) {f : Field} (hf : f ∈ fields) :
    ∃ w, values.lookup f.name = some w ∧ w.HasType f.type := by
  induction h with
  | nil => cases hf
  | @cons g x gs xs hx _ ih =>
    obtain ⟨hnew, hdistinct⟩ := List.nodup_cons.1 hdistinct
    rcases List.mem_cons.1 hf with rfl | hf
    · exact ⟨x.2, by rw [← hx.1]; exact List.lookup_cons_self, hx.2⟩
    · have hne : f.name ≠ x.1 := fun heq => hnew (List.mem_map.2 ⟨f, hf, heq.trans hx.1⟩)
      rw [List.lookup_cons, beq_false_of_ne hne]
      exact ih hdistinct hf

/-- A field of an instance has a value of its type. -/
theorem InstanceOf.field? {v : Value} {decl : TypeDecl} (h : v.InstanceOf decl)
    (hdistinct : (decl.fields.map (·.name)).Nodup) {f : Field} (hf : f ∈ decl.fields) :
    ∃ w, v.field? f.name = some w ∧ w.HasType f.type := by
  obtain ⟨values, rfl, hvalues⟩ := h
  exact lookup_of_forall₂ hvalues hdistinct hf

end Value

/-! ## Locals -/

/-- A local variable. -/
structure Local where
  name : String
  isMutable : Bool
  value : Value

/-- The locals in scope, the innermost first. -/
abbrev Locals := List Local

namespace Locals

/-- The value of a local. -/
def get? : Locals → String → Option Value
  | [], _ => none
  | l :: ls, name => if l.name = name then some l.value else get? ls name

/-- Appends to a list in a local that may change. -/
def push? : Locals → String → Value → Option Locals
  | [], _, _ => none
  | l :: ls, name, v =>
    if l.name = name then
      match l.isMutable, l.value with
      | true, .vec items => some ({ l with value := .vec (items ++ [v]) } :: ls)
      | _, _ => none
    else (push? ls name v).map (l :: ·)

/-- What is left of the locals after a block that gives no value. -/
def leave? (outer : Locals) : Value × Locals → Option Locals
  | (.unit, inner) => some (inner.drop (inner.length - outer.length))
  | _ => none

end Locals

/-! ## Expressions -/

/-- What a function of the standard library gives. -/
def builtin? : String → List Value → Option Value
  | "Some", [v] => some (.present v)
  | "Vec::new", [] => some (.vec [])
  | _, _ => none

/-- What a method of the standard library gives for a receiver and arguments, and the locals after it. The receiver of
`push` is a local. -/
def builtinMethod? (receiver : Expression) (name : String) (v : Value) (args : List Value) (ls : Locals) :
    Option (Value × Locals) :=
  match name, receiver, v, args with
  | "is_some", _, .present _, [] => some (.bool true, ls)
  | "is_some", _, .absent, [] => some (.bool false, ls)
  | "push", .path x, _, [item] => (ls.push? x item).map (.unit, ·)
  | _, _, _, _ => none

mutual

/-- The value of an expression in a function of a type. -/
def Expression.eval (type : String) : Expression → Locals → Option (Value × Locals)
  | .lit (.int n), ls => some (.int n, ls)
  | .lit (.bool b), ls => some (.bool b, ls)
  | .lit (.str s), ls => some (.text s, ls)
  | .path name, ls => ((ls.get? name).or (if name = "None" then some .absent else none)).map (·, ls)
  | .call func args, ls => do
    let (vs, ls) ← Expression.evalAll type args ls
    return (← builtin? func vs, ls)
  | .method receiver name args, ls => do
    let (v, ls) ← receiver.eval type ls
    let (vs, ls) ← Expression.evalAll type args ls
    builtinMethod? receiver name v vs ls
  | .field base name, ls => do
    let (v, ls) ← base.eval type ls
    return (← v.field? name, ls)
  | .record name fields, ls => do
    -- A literal names each field once.
    if (fields.map (·.1)).Nodup then
      let (vs, ls) ← Expression.evalFields type fields ls
      return (.record (if name = "Self" then type else name) vs, ls)
    else none
  | _, _ => none

/-- The values of expressions, from left to right. -/
def Expression.evalAll (type : String) : List Expression → Locals → Option (List Value × Locals)
  | [], ls => some ([], ls)
  | e :: es, ls => do
    let (v, ls) ← e.eval type ls
    let (vs, ls) ← Expression.evalAll type es ls
    return (v :: vs, ls)

/-- The fields of a record literal, from left to right. -/
def Expression.evalFields (type : String) :
    List (String × Expression) → Locals → Option (List (String × Value) × Locals)
  | [], ls => some ([], ls)
  | (name, e) :: es, ls => do
    let (v, ls) ← e.eval type ls
    let (vs, ls) ← Expression.evalFields type es ls
    return ((name, v) :: vs, ls)

end

/-! ## Blocks and functions -/

mutual

/-- The locals after a statement that is not the end of its block. -/
def Statement.exec (type : String) : Statement → Locals → Option Locals
  | .bind name isMutable e, ls => do
    let (v, ls) ← e.eval type ls
    return ⟨name, isMutable, v⟩ :: ls
  | .expr e, ls => do
    let (_, ls) ← e.eval type ls
    return ls
  | .cond test yes none, ls => do
    let (v, ls) ← test.eval type ls
    if ← v.bool? then ls.leave? (← Statement.run type yes ls) else return ls
  | .cond test yes (some no), ls => do
    let (v, ls) ← test.eval type ls
    if ← v.bool? then ls.leave? (← Statement.run type yes ls) else ls.leave? (← Statement.run type no ls)
  | _, _ => none

/-- The value of a block: that of the expression at its end. -/
def Statement.run (type : String) : List Statement → Locals → Option (Value × Locals)
  | [], ls => some (.unit, ls)
  | [.tail e], ls => e.eval type ls
  | s :: rest, ls => do Statement.run type rest (← s.exec type ls)

end

-- Values are computed by rewriting with the equations of these definitions.
attribute [simp] Value.bool? Locals.get? Locals.push? Locals.leave? builtin? builtinMethod? Expression.eval
  Expression.evalAll Expression.evalFields Statement.exec

/-- A literal that names each field once gives a record. -/
theorem Expression.eval_record (type name : String) {fields : List (String × Expression)} {ls ls' : Locals}
    {values : List (String × Value)} (hdistinct : (fields.map (·.1)).Nodup)
    (h : Expression.evalFields type fields ls = some (values, ls')) :
    Expression.eval type (.record name fields) ls =
      some (.record (if name = "Self" then type else name) values, ls') := by
  simp only [Expression.eval, if_pos hdistinct, h]
  rfl

/-- A statement that is not the end of its block comes before the rest. -/
theorem Statement.run_cons (type : String) (s : Statement) {rest : List Statement} (h : rest ≠ []) (ls : Locals) :
    Statement.run type (s :: rest) ls = (s.exec type ls).bind (Statement.run type rest) := by
  cases rest with
  | nil => exact absurd rfl h
  | cons s' rest => cases s <;> rfl

/-- The locals that a function of a type starts with. -/
def Func.enter? (f : Func) (self : Option Value) (args : List Value) : Option Locals :=
  let params : Locals := (f.params.zip args).map fun (p, v) => ⟨p.1, false, v⟩
  if args.length = f.params.length then
    match f.receiver, self with
    | .none, none => some params
    | .none, some _ => none
    | _, some v => some (⟨"self", false, v⟩ :: params)
    | _, none => none
  else none

/-- What a function of a type gives. -/
def Func.call (type : String) (f : Func) (self : Option Value) (args : List Value) : Option Value :=
  ((f.enter? self args).bind (Statement.run type f.body)).map (·.1)

/-- A function with one parameter starts with its argument. -/
theorem Func.call_one (type : String) {f : Func} {x : String} {t : TypeExpr} (hreceiver : f.receiver = .none)
    (hparams : f.params = [(x, t)]) (v : Value) :
    f.call type none [v] = (Statement.run type f.body [⟨x, false, v⟩]).map (·.1) := by
  simp [Func.call, Func.enter?, hreceiver, hparams]

/-- A method without parameters starts with the value that it is called on. -/
theorem Func.call_method (type : String) {f : Func} (hreceiver : f.receiver = .byRef) (hparams : f.params = [])
    (v : Value) : f.call type (some v) [] = (Statement.run type f.body [⟨"self", false, v⟩]).map (·.1) := by
  simp [Func.call, Func.enter?, hreceiver, hparams]

/-- The function with a name in the blocks of a type, those of a trait or those of no trait. -/
def func? (decls : List Declaration) (type : String) (traitName : Option String) (name : String) : Option Func :=
  decls.findSome? fun
    | .impl b => if b.target = type ∧ b.traitName = traitName then b.funcs.find? (·.name == name) else none
    | _ => none

/-- Calls a function of a type that needs no value of it. -/
def callFunc (decls : List Declaration) (type name : String) (args : List Value) : Option Value := do
  (← func? decls type none name).call type none args

/-- Calls a function of a trait on a value of a type. -/
def callMethod (decls : List Declaration) (type traitName name : String) (self : Value) : Option Value := do
  (← func? decls type (some traitName) name).call type (some self) []

end ApiForge.Code

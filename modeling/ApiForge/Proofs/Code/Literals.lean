import ApiForge.Proofs.Code.Documentation
import Mathlib.Data.List.Forall2

/-!
# Literals in generated source

The literals of an inline form can be read back from its text, in the order in which they stand in the form, as long as
no text that is copied into the form has a quote.

* `Reads s values`: the literals in the text `s` have these values, wherever the text stands outside of a literal.
* `Expression.strings`, `Meta.strings`: the texts that a form holds as literals.
* `Expression.text_reads`, `Meta.text_reads`: these are what the text of the form reads as.
* `Constant.valueLine`: the line on which the value of a constant stands.
-/

namespace ApiForge.Code

open Text Decimal

/-! ## Texts with literals -/

/-- A text without quotes. -/
def Unquoted (s : String) : Prop := '"' ∉ s.toList

instance (s : String) : Decidable (Unquoted s) := inferInstanceAs (Decidable ('"' ∉ s.toList))

/-- The literals in a text have these values, wherever it stands outside of a literal. -/
def Reads (s : String) (values : List String) : Prop :=
  ∀ found, Reader.run ⟨found, [], .outside⟩ s.toList = some ⟨found ++ values, [], .outside⟩

section Reads

variable {s t left right : String} {values values' : List String}

theorem Unquoted.append (hs : Unquoted s) (ht : Unquoted t) : Unquoted (s ++ t) := by
  rw [Unquoted, String.toList_append, List.mem_append, not_or]
  exact ⟨hs, ht⟩

theorem unquoted_of_numeral (h : ∀ c ∈ s.toList, isNumeral c = true) : Unquoted s := fun hmem =>
  absurd (h _ hmem) (by decide)

/-- The values of the literals in a text. -/
theorem Reads.literals?_eq (h : Reads s values) : literals? s = some values := by
  rw [literals?, h []]
  rfl

theorem Reads.append (hs : Reads s values) (ht : Reads t values') : Reads (s ++ t) (values ++ values') := by
  intro found
  rw [String.toList_append, Reader.run_append, hs found, Option.bind_some, ht, List.append_assoc]

/-- Without quotes there is no literal. -/
theorem Unquoted.reads (h : Unquoted s) : Reads s [] := by
  intro found
  rw [List.append_nil]
  have hrun : ∀ cs : List Char, '"' ∉ cs → Reader.run ⟨found, [], .outside⟩ cs = some ⟨found, [], .outside⟩ := by
    intro cs hcs
    induction cs with
    | nil => rfl
    | cons c cs ih =>
      obtain ⟨hc, hcs⟩ := not_or.1 (mt List.mem_cons.2 hcs)
      rw [Reader.run_cons, Reader.step]
      simp only [if_neg (Ne.symm hc), Option.bind_some]
      exact ih hcs
  exact hrun s.toList h

theorem reads_literal (s : String) : Reads (literal s) [s] := run_literalOf Text.hidden s

theorem Reads.between (hleft : Unquoted left) (h : Reads s values) (hright : Unquoted right) :
    Reads (left ++ s ++ right) values := by
  have hall := (hleft.reads.append h).append hright.reads
  rwa [List.nil_append, List.append_nil] at hall

theorem Reads.behind (hleft : Unquoted left) (h : Reads s values) : Reads (left ++ s) values := by
  have hall := hleft.reads.append h
  rwa [List.nil_append] at hall

theorem Reads.before (h : Reads s values) (hright : Unquoted right) : Reads (s ++ right) values := by
  have hall := h.append hright.reads
  rwa [List.append_nil] at hall

theorem Reads.parenthesize (h : Reads s values) (needed : Bool) : Reads (parenthesize needed s) values := by
  unfold Code.parenthesize
  split
  · exact .between (by decide) h (by decide)
  · exact h

/-- Items between commas are read one after another. -/
theorem reads_commaList {items : List String} {valuess : List (List String)} (h : List.Forall₂ Reads items valuess) :
    Reads (commaList items) valuess.flatten := by
  induction h with
  | nil => exact Unquoted.reads (by decide)
  | @cons s values items valuess hs hitems ih =>
    cases hitems with
    | nil =>
      rw [commaList, String.intercalate_singleton, List.flatten_singleton]
      exact hs
    | @cons t values' items valuess ht hitems =>
      rw [commaList, String.intercalate_cons_cons, List.flatten_cons]
      exact (hs.before (by decide)).append ih

end Reads

/-! ## Literals of forms -/

/-- The text that a literal stands for, if it is one of a text. -/
def Literal.strings : Literal → List String
  | .str s => [s]
  | .int _ | .float _ | .bool _ => []

theorem Literal.text_reads : ∀ v : Literal, Reads v.text v.strings
  | .str s => reads_literal s
  | .int n => (unquoted_of_numeral (numeral_int n)).reads
  | .float x => (unquoted_of_numeral (numeral_write _ x)).reads
  | .bool true => Unquoted.reads (by decide)
  | .bool false => Unquoted.reads (by decide)

mutual

/-- The texts that an expression holds as literals, in order. -/
def Expression.strings : Expression → List String
  | .lit value => value.strings
  | .path _ => []
  | .call _ args => (Expression.stringLists args).flatten
  | .method receiver _ args => receiver.strings ++ (Expression.stringLists args).flatten
  | .field base _ => base.strings
  | .record _ fields => (Expression.fieldStrings fields).flatten
  | .borrow inner => inner.strings
  | .array items => (Expression.stringLists items).flatten
  | .tuple items => (Expression.stringLists items).flatten
  | .binary _ lhs rhs => lhs.strings ++ rhs.strings
  | .not inner => inner.strings

def Expression.stringLists : List Expression → List (List String)
  | [] => []
  | e :: es => e.strings :: Expression.stringLists es

def Expression.fieldStrings : List (String × Expression) → List (List String)
  | [] => []
  | (_, e) :: fs => e.strings :: Expression.fieldStrings fs

end

mutual

/-- The texts that an attribute holds as literals, in order. -/
def Meta.strings : Meta → List String
  | .path _ => []
  | .nameValue _ v => v.strings
  | .list _ items => (Meta.stringLists items).flatten
  | .value v => v.strings

def Meta.stringLists : List Meta → List (List String)
  | [] => []
  | m :: ms => m.strings :: Meta.stringLists ms

end

theorem Expression.verbatims_eq_flatMap (es : List Expression) :
    Expression.verbatims es = es.flatMap Expression.verbatim := by
  induction es with
  | nil => rfl
  | cons e es ih => rw [Expression.verbatims, ih, List.flatMap_cons]

theorem Expression.stringLists_eq_map (es : List Expression) :
    Expression.stringLists es = es.map Expression.strings := by
  induction es with
  | nil => rfl
  | cons e es ih => rw [Expression.stringLists, ih, List.map_cons]

theorem BinOp.token_unquoted (op : BinOp) : Unquoted op.token := by cases op <;> decide

mutual

/-- **The literals of an expression are read back** from its text. -/
theorem Expression.text_reads : ∀ {e : Expression}, (∀ n ∈ e.verbatim, Unquoted n) → Reads e.text e.strings
  | .lit value, _ => value.text_reads
  | .path name, h => (h name List.mem_cons_self).reads
  | .call func args, h => by
    obtain ⟨hfunc, hargs⟩ := List.forall_mem_cons.1 h
    rw [Expression.text, Expression.strings]
    exact .between (hfunc.append (by decide)) (reads_commaList (Expression.texts_read hargs)) (by decide)
  | .method receiver name args, h => by
    obtain ⟨hname, hparts⟩ := List.forall_mem_cons.1 h
    obtain ⟨hreceiver, hargs⟩ := List.forall_mem_append.1 hparts
    have hcallee := ((((Expression.text_reads hreceiver).parenthesize receiver.needsParens).before
      (by decide : Unquoted ".")).before hname).before (by decide : Unquoted "(")
    rw [Expression.text, Expression.strings]
    exact (hcallee.append (reads_commaList (Expression.texts_read hargs))).before (by decide)
  | .field base name, h => by
    obtain ⟨hname, hbase⟩ := List.forall_mem_cons.1 h
    rw [Expression.text, Expression.strings]
    exact (((Expression.text_reads hbase).parenthesize _).before (by decide)).before hname
  | .record name [], h => by
    rw [Expression.text]
    exact ((h name List.mem_cons_self).append (by decide)).reads
  | .record name (f :: fs), h => by
    obtain ⟨hname, hfields⟩ := List.forall_mem_cons.1 h
    rw [Expression.text, Expression.strings]
    exact .between (hname.append (by decide)) (reads_commaList (Expression.fieldTexts_read hfields)) (by decide)
  | .borrow inner, h => by
    have hinner : Reads inner.text inner.strings := Expression.text_reads h
    rw [Expression.text, Expression.strings]
    exact .behind (by decide) (hinner.parenthesize _)
  | .array items, h => by
    rw [Expression.text, Expression.strings]
    exact .between (by decide) (reads_commaList (Expression.texts_read h)) (by decide)
  | .tuple items, h => by
    rw [Expression.text, Expression.strings]
    exact .between (by decide) (reads_commaList (Expression.texts_read h)) (by decide)
  | .binary op lhs rhs, h => by
    obtain ⟨hlhs, hrhs⟩ := List.forall_mem_append.1 h
    have hoperator := (((Expression.text_reads hlhs).parenthesize lhs.needsParens).before (by decide : Unquoted " ")).before
      op.token_unquoted
    rw [Expression.text, Expression.strings]
    exact (hoperator.before (by decide)).append ((Expression.text_reads hrhs).parenthesize _)
  | .not inner, h => by
    have hinner : Reads inner.text inner.strings := Expression.text_reads h
    rw [Expression.text, Expression.strings]
    exact .behind (by decide) (hinner.parenthesize _)

theorem Expression.texts_read : ∀ {es : List Expression}, (∀ n ∈ Expression.verbatims es, Unquoted n) →
    List.Forall₂ Reads (Expression.texts es) (Expression.stringLists es)
  | [], _ => .nil
  | e :: es, h => by
    obtain ⟨he, hes⟩ := List.forall_mem_append.1 h
    exact .cons (Expression.text_reads he) (Expression.texts_read hes)

theorem Expression.fieldTexts_read : ∀ {fs : List (String × Expression)},
    (∀ n ∈ Expression.fieldVerbatims fs, Unquoted n) →
    List.Forall₂ Reads (Expression.fieldTexts fs) (Expression.fieldStrings fs)
  | [], _ => .nil
  | (k, e) :: fs, h => by
    obtain ⟨hk, hrest⟩ := List.forall_mem_cons.1 h
    obtain ⟨he, hfs⟩ := List.forall_mem_append.1 hrest
    refine .cons ?_ (Expression.fieldTexts_read hfs)
    exact .behind (hk.append (by decide)) (Expression.text_reads he)

end

mutual

/-- **The literals of an attribute are read back** from its text. -/
theorem Meta.text_reads : ∀ {m : Meta}, (∀ n ∈ m.verbatim, Unquoted n) → Reads m.text m.strings
  | .path name, h => (h name List.mem_cons_self).reads
  | .nameValue name v, h => by
    obtain ⟨hname, hvalue⟩ := List.forall_mem_cons.1 h
    rw [Meta.text, Meta.strings]
    exact .behind (hname.append (by decide)) (Expression.text_reads hvalue)
  | .list name items, h => by
    obtain ⟨hname, hitems⟩ := List.forall_mem_cons.1 h
    rw [Meta.text, Meta.strings]
    exact .between (hname.append (by decide)) (reads_commaList (Meta.texts_read hitems)) (by decide)
  | .value v, h => Expression.text_reads h

theorem Meta.texts_read : ∀ {ms : List Meta}, (∀ n ∈ Meta.verbatims ms, Unquoted n) →
    List.Forall₂ Reads (Meta.texts ms) (Meta.stringLists ms)
  | [], _ => .nil
  | m :: ms, h => by
    obtain ⟨hm, hms⟩ := List.forall_mem_append.1 h
    exact .cons (Meta.text_reads hm) (Meta.texts_read hms)

end

/-! ## Literals of declarations -/

/-- The line on which the value of a constant stands. -/
def Constant.valueLine (c : Constant) : String :=
  "pub const " ++ c.name ++ ": " ++ c.type.text ++ " = " ++ c.value.text ++ ";"

theorem Constant.lines_eq (c : Constant) : c.lines = docLines c.docs ++ [c.valueLine] := rfl

/-- The value of a constant is read back from its line. -/
theorem Constant.literals?_valueLine {c : Constant} (hname : Unquoted c.name) (htype : Unquoted c.type.text)
    (hvalue : ∀ n ∈ c.value.verbatim, Unquoted n) : literals? c.valueLine = some c.value.strings := by
  have hleft : Unquoted ("pub const " ++ c.name ++ ": " ++ c.type.text ++ " = ") :=
    (((Unquoted.append (by decide) hname).append (by decide)).append htype).append (by decide)
  have hreads : Reads c.valueLine c.value.strings := .between hleft (Expression.text_reads hvalue) (by decide)
  exact hreads.literals?_eq

/-- The literals of an attribute are read back from its line. -/
theorem Meta.literals?_attribute {m : Meta} (h : ∀ n ∈ m.verbatim, Unquoted n) :
    literals? m.attribute = some m.strings := by
  have hreads : Reads m.attribute m.strings := .between (by decide) (Meta.text_reads h) (by decide)
  exact hreads.literals?_eq

end ApiForge.Code

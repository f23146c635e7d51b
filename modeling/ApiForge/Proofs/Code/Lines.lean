import ApiForge.Code.Printer
import ApiForge.Proofs.Decimal.Numerals
import ApiForge.Proofs.Text.Literal

/-!
# Lines of generated source

Inline forms stand on one line, and no line of a statement looks like documentation, as long as this is true of the
texts that are copied into them: names, paths and patterns. Literals are never in the way, whatever they hold.

* `Plain s`: a text without a line break that is not the beginning of a documentation line.
* `TypeExpr.verbatim`, `Expression.verbatim`, `Statement.verbatim`, `Meta.verbatim`: the texts that are copied.
* `TypeExpr.text_oneLine`, `Expression.text_oneLine`, `Meta.text_oneLine`: inline forms stand on one line.
* `Expression.text_almostSettled`: an expression begins no documentation line, whatever follows it.
* `Statement.lines_plain`: the lines of a statement are plain.
-/

namespace ApiForge.Code

open Text Decimal

/-! ## Texts on one line -/

/-- A text without a line break. -/
def OneLine (s : String) : Prop := '\n' ∉ s.toList

instance (s : String) : Decidable (OneLine s) := inferInstanceAs (Decidable ('\n' ∉ s.toList))

section OneLine

variable {s t : String}

theorem OneLine.append (hs : OneLine s) (ht : OneLine t) : OneLine (s ++ t) := by
  rw [OneLine, String.toList_append, List.mem_append, not_or]
  exact ⟨hs, ht⟩

theorem OneLine.between {left right : String} (hleft : OneLine left) (h : OneLine s) (hright : OneLine right) :
    OneLine (left ++ s ++ right) := (hleft.append h).append hright

theorem OneLine.parenthesize (h : OneLine s) (needed : Bool) : OneLine (parenthesize needed s) := by
  unfold Code.parenthesize
  split
  · exact .between (by decide) h (by decide)
  · exact h

theorem oneLine_commaList : ∀ {items : List String}, (∀ s ∈ items, OneLine s) → OneLine (commaList items)
  | [], _ => by decide
  | [s], h => by
    rw [commaList, String.intercalate_singleton]
    exact h s List.mem_cons_self
  | s :: t :: items, h => by
    rw [commaList, String.intercalate_cons_cons]
    obtain ⟨hs, hrest⟩ := List.forall_mem_cons.1 h
    exact (hs.append (by decide)).append (oneLine_commaList hrest)

theorem oneLine_of_numeral (h : ∀ c ∈ s.toList, isNumeral c = true) : OneLine s := fun hmem =>
  absurd (h _ hmem) (by decide)

end OneLine

/-! ### Literals -/

theorem oneLine_literal (s : String) : OneLine (literal s) := by
  obtain ⟨hchars, -, hbreak, -⟩ := literalOf_spec Text.hidden s
  rw [OneLine, literal_eq, hchars]
  simpa using hbreak

theorem Literal.text_oneLine : ∀ v : Literal, OneLine v.text
  | .str s => oneLine_literal s
  | .int n => oneLine_of_numeral (numeral_int n)
  | .float x => oneLine_of_numeral (numeral_write _ x)
  | .bool true => by decide
  | .bool false => by decide

/-! ## Copied texts -/

mutual

/-- The texts that are copied into a type. -/
def TypeExpr.verbatim : TypeExpr → List String
  | .named name => [name]
  | .generic name args => name :: TypeExpr.verbatims args
  | .ref lifetime inner => lifetime.toList ++ inner.verbatim
  | .slice inner => inner.verbatim
  | .tuple items => TypeExpr.verbatims items

def TypeExpr.verbatims : List TypeExpr → List String
  | [] => []
  | t :: ts => t.verbatim ++ TypeExpr.verbatims ts

end

mutual

/-- The texts that are copied into an expression; the text of a literal is not. -/
def Expression.verbatim : Expression → List String
  | .lit _ => []
  | .path name => [name]
  | .call func args => func :: Expression.verbatims args
  | .method receiver name args => name :: (receiver.verbatim ++ Expression.verbatims args)
  | .field base name => name :: base.verbatim
  | .record name fields => name :: Expression.fieldVerbatims fields
  | .borrow inner => inner.verbatim
  | .array items => Expression.verbatims items
  | .tuple items => Expression.verbatims items
  | .binary _ lhs rhs => lhs.verbatim ++ rhs.verbatim
  | .not inner => inner.verbatim

def Expression.verbatims : List Expression → List String
  | [] => []
  | e :: es => e.verbatim ++ Expression.verbatims es

def Expression.fieldVerbatims : List (String × Expression) → List String
  | [] => []
  | (k, e) :: fs => k :: (e.verbatim ++ Expression.fieldVerbatims fs)

end

mutual

/-- The texts that are copied into an attribute. -/
def Meta.verbatim : Meta → List String
  | .path name => [name]
  | .nameValue name v => name :: v.verbatim
  | .list name items => name :: Meta.verbatims items
  | .value v => v.verbatim

def Meta.verbatims : List Meta → List String
  | [] => []
  | m :: ms => m.verbatim ++ Meta.verbatims ms

end

mutual

/-- The texts that are copied into a statement. -/
def Statement.verbatim : Statement → List String
  | .bind name _ value => name :: value.verbatim
  | .expr value => value.verbatim
  | .tail value => value.verbatim
  | .ret none => []
  | .ret (some value) => value.verbatim
  | .cond test yes none => test.verbatim ++ Statement.verbatims yes
  | .cond test yes (some no) => test.verbatim ++ (Statement.verbatims yes ++ Statement.verbatims no)
  | .condLet pattern value yes => pattern :: (value.verbatim ++ Statement.verbatims yes)

def Statement.verbatims : List Statement → List String
  | [] => []
  | s :: ss => s.verbatim ++ Statement.verbatims ss

end

/-! ## Inline forms -/

mutual

/-- **A type stands on one line.** -/
theorem TypeExpr.text_oneLine : ∀ {t : TypeExpr}, (∀ n ∈ t.verbatim, OneLine n) → OneLine t.text
  | .named name, h => h name List.mem_cons_self
  | .generic name args, h => by
    obtain ⟨hname, hargs⟩ := List.forall_mem_cons.1 h
    rw [TypeExpr.text]
    exact .between (hname.append (by decide)) (oneLine_commaList (TypeExpr.texts_oneLine hargs)) (by decide)
  | .ref none inner, h => by
    rw [TypeExpr.text]
    exact .append (by decide) (TypeExpr.text_oneLine h)
  | .ref (some lifetime) inner, h => by
    obtain ⟨hlifetime, hinner⟩ := List.forall_mem_cons.1 h
    rw [TypeExpr.text]
    exact (OneLine.between (by decide) hlifetime (by decide)).append (TypeExpr.text_oneLine hinner)
  | .slice inner, h => by
    rw [TypeExpr.text]
    exact .between (by decide) (TypeExpr.text_oneLine h) (by decide)
  | .tuple items, h => by
    rw [TypeExpr.text]
    exact .between (by decide) (oneLine_commaList (TypeExpr.texts_oneLine h)) (by decide)

theorem TypeExpr.texts_oneLine : ∀ {ts : List TypeExpr}, (∀ n ∈ TypeExpr.verbatims ts, OneLine n) →
    ∀ s ∈ TypeExpr.texts ts, OneLine s
  | [], _ => by nofun
  | t :: ts, h => by
    obtain ⟨ht, hts⟩ := List.forall_mem_append.1 h
    exact List.forall_mem_cons.2 ⟨TypeExpr.text_oneLine ht, TypeExpr.texts_oneLine hts⟩

end

theorem BinOp.token_oneLine (op : BinOp) : OneLine op.token := by cases op <;> decide

mutual

/-- **An expression stands on one line.** -/
theorem Expression.text_oneLine : ∀ {e : Expression}, (∀ n ∈ e.verbatim, OneLine n) → OneLine e.text
  | .lit value, _ => value.text_oneLine
  | .path name, h => h name List.mem_cons_self
  | .call func args, h => by
    obtain ⟨hfunc, hargs⟩ := List.forall_mem_cons.1 h
    rw [Expression.text]
    exact .between (hfunc.append (by decide)) (oneLine_commaList (Expression.texts_oneLine hargs)) (by decide)
  | .method receiver name args, h => by
    obtain ⟨hname, hparts⟩ := List.forall_mem_cons.1 h
    obtain ⟨hreceiver, hargs⟩ := List.forall_mem_append.1 hparts
    have hcallee := (((Expression.text_oneLine hreceiver).parenthesize receiver.needsParens).append
      (by decide : OneLine ".")).append hname
    rw [Expression.text]
    exact .between (hcallee.append (by decide)) (oneLine_commaList (Expression.texts_oneLine hargs)) (by decide)
  | .field base name, h => by
    obtain ⟨hname, hbase⟩ := List.forall_mem_cons.1 h
    rw [Expression.text]
    exact .between ((Expression.text_oneLine hbase).parenthesize _) (by decide) hname
  | .record name [], h => by
    rw [Expression.text]
    exact (h name List.mem_cons_self).append (by decide)
  | .record name (f :: fs), h => by
    obtain ⟨hname, hfields⟩ := List.forall_mem_cons.1 h
    rw [Expression.text]
    exact .between (hname.append (by decide)) (oneLine_commaList (Expression.fieldTexts_oneLine hfields)) (by decide)
  | .borrow inner, h => by
    have hinner : OneLine inner.text := Expression.text_oneLine h
    rw [Expression.text]
    exact .append (by decide) (hinner.parenthesize _)
  | .array items, h => by
    rw [Expression.text]
    exact .between (by decide) (oneLine_commaList (Expression.texts_oneLine h)) (by decide)
  | .tuple items, h => by
    rw [Expression.text]
    exact .between (by decide) (oneLine_commaList (Expression.texts_oneLine h)) (by decide)
  | .binary op lhs rhs, h => by
    obtain ⟨hlhs, hrhs⟩ := List.forall_mem_append.1 h
    have hoperator := ((Expression.text_oneLine hlhs).parenthesize lhs.needsParens).append (by decide : OneLine " ")
    rw [Expression.text]
    exact ((hoperator.append op.token_oneLine).append (by decide)).append
      ((Expression.text_oneLine hrhs).parenthesize _)
  | .not inner, h => by
    have hinner : OneLine inner.text := Expression.text_oneLine h
    rw [Expression.text]
    exact .append (by decide) (hinner.parenthesize _)

theorem Expression.texts_oneLine : ∀ {es : List Expression}, (∀ n ∈ Expression.verbatims es, OneLine n) →
    ∀ s ∈ Expression.texts es, OneLine s
  | [], _ => by nofun
  | e :: es, h => by
    obtain ⟨he, hes⟩ := List.forall_mem_append.1 h
    exact List.forall_mem_cons.2 ⟨Expression.text_oneLine he, Expression.texts_oneLine hes⟩

theorem Expression.fieldTexts_oneLine : ∀ {fs : List (String × Expression)},
    (∀ n ∈ Expression.fieldVerbatims fs, OneLine n) → ∀ s ∈ Expression.fieldTexts fs, OneLine s
  | [], _ => by nofun
  | (k, e) :: fs, h => by
    obtain ⟨hk, hrest⟩ := List.forall_mem_cons.1 h
    obtain ⟨he, hfs⟩ := List.forall_mem_append.1 hrest
    refine List.forall_mem_cons.2 ⟨?_, Expression.fieldTexts_oneLine hfs⟩
    exact .between hk (by decide) (Expression.text_oneLine he)

end

mutual

/-- **The content of an attribute stands on one line.** -/
theorem Meta.text_oneLine : ∀ {m : Meta}, (∀ n ∈ m.verbatim, OneLine n) → OneLine m.text
  | .path name, h => h name List.mem_cons_self
  | .nameValue name v, h => by
    obtain ⟨hname, hvalue⟩ := List.forall_mem_cons.1 h
    rw [Meta.text]
    exact .between hname (by decide) (Expression.text_oneLine hvalue)
  | .list name items, h => by
    obtain ⟨hname, hitems⟩ := List.forall_mem_cons.1 h
    rw [Meta.text]
    exact .between (hname.append (by decide)) (oneLine_commaList (Meta.texts_oneLine hitems)) (by decide)
  | .value v, h => Expression.text_oneLine h

theorem Meta.texts_oneLine : ∀ {ms : List Meta}, (∀ n ∈ Meta.verbatims ms, OneLine n) →
    ∀ s ∈ Meta.texts ms, OneLine s
  | [], _ => by nofun
  | m :: ms, h => by
    obtain ⟨hm, hms⟩ := List.forall_mem_append.1 h
    exact List.forall_mem_cons.2 ⟨Meta.text_oneLine hm, Meta.texts_oneLine hms⟩

end

/-! ## Documentation lines -/

/-- A text without the blanks at its beginning. -/
def unindented (s : String) : List Char := s.toList.dropWhile (· == ' ')

/-- Whether a line is documentation: the first characters that are no blanks are `///`. -/
def isDocLine (line : String) : Bool := "///".toList.isPrefixOf (unindented line)

/-- Whether a text begins with a slash, blanks apart. -/
def leadsWithSlash (s : String) : Bool := (unindented s).head? == some '/'

/-- Whether a text begins with another character than a slash, blanks apart. -/
def opens (s : String) : Bool := (unindented s).head?.any (· != '/')

/-- Whatever stands behind the text, the line is no documentation. -/
def Settled (s : String) : Prop := ∀ rest, isDocLine (s ++ rest) = false

/-- Whatever stands behind the text and does not begin with a slash, the line is no documentation. -/
def AlmostSettled (s : String) : Prop := ∀ rest, leadsWithSlash rest = false → isDocLine (s ++ rest) = false

section DocLines

variable {s t : String}

theorem unindented_append (s t : String) :
    unindented (s ++ t) = if (unindented s).isEmpty then unindented t else unindented s ++ t.toList := by
  rw [unindented, String.toList_append, List.dropWhile_append]
  rfl

theorem opens_append (h : opens s = true) (t : String) : opens (s ++ t) = true := by
  unfold opens at *
  rw [unindented_append]
  cases hs : unindented s with
  | nil =>
    rw [hs] at h
    cases h
  | cons c cs =>
    rw [hs] at h
    exact h

theorem not_leadsWithSlash_of_opens (h : opens s = true) : leadsWithSlash s = false := by
  unfold opens leadsWithSlash at *
  cases hs : unindented s with
  | nil => rfl
  | cons c cs =>
    rw [hs] at h
    simpa using h

/-- A documentation line begins with a slash. -/
theorem not_isDocLine_of_not_leadsWithSlash (h : leadsWithSlash s = false) : isDocLine s = false := by
  unfold isDocLine
  unfold leadsWithSlash at h
  cases hs : unindented s with
  | nil => rfl
  | cons c cs =>
    rw [hs] at h
    have hc : c ≠ '/' := by simpa using h
    simp [List.isPrefixOf, Ne.symm hc]

/-- Three slashes in front come from one text alone, unless the next one begins with a slash. -/
theorem almostSettled_of_not_isDocLine (h : isDocLine s = false) : AlmostSettled s := by
  intro rest hrest
  unfold isDocLine at *
  rw [unindented_append]
  cases hs : unindented s with
  | nil => exact not_isDocLine_of_not_leadsWithSlash hrest
  | cons c cs =>
    rw [hs] at h
    have hhead : rest.toList.head? ≠ some '/' := by
      intro hslash
      obtain ⟨cs', hcs'⟩ := List.head?_eq_some_iff.1 hslash
      rw [leadsWithSlash, unindented, hcs'] at hrest
      cases hrest
    rw [if_neg (by simp), ← Bool.not_eq_true, List.isPrefixOf_iff_prefix]
    rw [← Bool.not_eq_true, List.isPrefixOf_iff_prefix] at h
    intro hprefix
    have hfirst : c :: cs <+: c :: cs ++ rest.toList := List.prefix_append _ _
    rcases List.prefix_or_prefix_of_prefix hprefix hfirst with hwhole | ⟨more, hmore⟩
    · exact h hwhole
    · rw [← hmore, List.prefix_append_right_inj] at hprefix
      cases more with
      | nil =>
        have hall : "///".toList = c :: cs := by rw [← hmore, List.append_nil]
        exact h (hall ▸ List.prefix_rfl)
      | cons d ds =>
        -- the slash that is missing comes from the next text
        have hd : d ∈ "///".toList := hmore ▸ List.mem_append_right _ List.mem_cons_self
        have hslash : ∀ x ∈ "///".toList, x = '/' := fun x hx => List.eq_of_mem_replicate (n := 3) hx
        obtain ⟨ds', hds'⟩ := hprefix
        exact hhead (by rw [← hds', hslash d hd]; rfl)

theorem AlmostSettled.isDocLine (h : AlmostSettled s) : isDocLine s = false := by
  have hempty := h "" rfl
  rwa [String.append_empty] at hempty

theorem Settled.almost (h : Settled s) : AlmostSettled s := fun rest _ => h rest

theorem settled_of_opens (h : opens s = true) : Settled s := fun rest =>
  not_isDocLine_of_not_leadsWithSlash (not_leadsWithSlash_of_opens (opens_append h rest))

theorem Settled.append (h : Settled s) (t : String) : Settled (s ++ t) := by
  intro rest
  rw [String.append_assoc]
  exact h _

theorem Settled.concat : ∀ {s : String}, Settled s → ∀ ts : List String, Settled (ts.foldl (· ++ ·) s)
  | _, h, [] => h
  | _, h, t :: ts => (h.append t).concat ts

/-- A character that is no slash settles it. -/
theorem AlmostSettled.settle (h : AlmostSettled s) (ht : opens t = true) : Settled (s ++ t) := by
  intro rest
  rw [String.append_assoc]
  exact h _ (not_leadsWithSlash_of_opens (opens_append ht rest))

theorem AlmostSettled.parenthesize (h : AlmostSettled s) (needed : Bool) : AlmostSettled (parenthesize needed s) := by
  unfold Code.parenthesize
  split
  · exact (settled_of_opens (opens_append (opens_append (by decide) s) ")")).almost
  · exact h

theorem isDocLine_indent (s : String) : isDocLine ("    " ++ s) = isDocLine s := by
  rw [isDocLine, unindented_append]
  rfl

theorem isDocLine_docLine (s : String) : isDocLine (docLine s) = true := by
  unfold docLine
  split
  · decide
  · rw [isDocLine, unindented_append]
    rfl

end DocLines

theorem not_isDocLine_of_numeral {s : String} (h : ∀ c ∈ s.toList, isNumeral c = true) : isDocLine s = false := by
  apply not_isDocLine_of_not_leadsWithSlash
  rw [leadsWithSlash, beq_eq_false_iff_ne]
  intro hslash
  have hmem := (List.dropWhile_sublist _).subset (List.mem_of_head? hslash)
  exact absurd (h '/' hmem) (by decide)

theorem opens_literal (s : String) : opens (literal s) = true := by
  rw [opens, unindented, literal, String.toList_ofList]
  rfl

theorem Literal.text_almostSettled : ∀ v : Literal, AlmostSettled v.text
  | .str s => (settled_of_opens (opens_literal s)).almost
  | .int n => almostSettled_of_not_isDocLine (not_isDocLine_of_numeral (numeral_int n))
  | .float x => almostSettled_of_not_isDocLine (not_isDocLine_of_numeral (numeral_write _ x))
  | .bool true => (settled_of_opens (by decide)).almost
  | .bool false => (settled_of_opens (by decide)).almost

/-- **An expression begins no documentation line.** -/
theorem Expression.text_almostSettled : ∀ {e : Expression}, (∀ n ∈ e.verbatim, isDocLine n = false) →
    AlmostSettled e.text
  | .lit value, _ => value.text_almostSettled
  | .path name, h => almostSettled_of_not_isDocLine (h name List.mem_cons_self)
  | .call func args, h => by
    have hfunc := almostSettled_of_not_isDocLine (h func List.mem_cons_self)
    rw [Expression.text]
    exact ((hfunc.settle (by decide)).concat [_, _]).almost
  | .method receiver name args, h => by
    obtain ⟨-, hparts⟩ := List.forall_mem_cons.1 h
    have hreceiver : AlmostSettled receiver.text := Expression.text_almostSettled (List.forall_mem_append.1 hparts).1
    rw [Expression.text]
    exact (((hreceiver.parenthesize _).settle (by decide)).concat [_, _, _, _]).almost
  | .field base name, h => by
    obtain ⟨-, hparts⟩ := List.forall_mem_cons.1 h
    have hbase : AlmostSettled base.text := Expression.text_almostSettled hparts
    rw [Expression.text]
    exact (((hbase.parenthesize _).settle (by decide)).append _).almost
  | .record name [], h => by
    have hname := almostSettled_of_not_isDocLine (h name List.mem_cons_self)
    rw [Expression.text]
    exact (hname.settle (by decide)).almost
  | .record name (f :: fs), h => by
    have hname := almostSettled_of_not_isDocLine (h name List.mem_cons_self)
    rw [Expression.text]
    exact ((hname.settle (by decide)).concat [_, _]).almost
  | .borrow inner, _ => by
    rw [Expression.text]
    exact (settled_of_opens (opens_append (by decide) _)).almost
  | .array items, _ => by
    rw [Expression.text]
    exact ((settled_of_opens (by decide)).concat [_, _]).almost
  | .tuple items, _ => by
    rw [Expression.text]
    exact ((settled_of_opens (by decide)).concat [_, _]).almost
  | .binary op lhs rhs, h => by
    have hlhs : AlmostSettled lhs.text := Expression.text_almostSettled (List.forall_mem_append.1 h).1
    have hoperator : opens (" " ++ op.token) = true := by cases op <;> decide
    have hleft : Settled (parenthesize lhs.needsParens lhs.text ++ " " ++ op.token) := by
      rw [String.append_assoc]
      exact (hlhs.parenthesize _).settle hoperator
    rw [Expression.text]
    exact (hleft.concat [_, _]).almost
  | .not inner, _ => by
    rw [Expression.text]
    exact (settled_of_opens (opens_append (by decide) _)).almost

/-! ## Plain texts -/

/-- A text without a line break that is not the beginning of a documentation line. -/
def Plain (s : String) : Prop := OneLine s ∧ isDocLine s = false

/-- A line that opens with a fixed text is plain if it is one line. -/
theorem plain_of_settled {s : String} (hline : OneLine s) (h : Settled s) : Plain s := ⟨hline, h.almost.isDocLine⟩

theorem Plain.indent {s : String} (h : Plain s) : Plain ("    " ++ s) :=
  ⟨.append (by decide) h.1, (isDocLine_indent s).trans h.2⟩

theorem TypeExpr.text_oneLine_of_plain {t : TypeExpr} (h : ∀ n ∈ t.verbatim, Plain n) : OneLine t.text :=
  TypeExpr.text_oneLine fun n hn => (h n hn).1

theorem Expression.text_oneLine_of_plain {e : Expression} (h : ∀ n ∈ e.verbatim, Plain n) : OneLine e.text :=
  Expression.text_oneLine fun n hn => (h n hn).1

theorem plain_indent {ls : List String} (h : ∀ l ∈ ls, Plain l) : ∀ l ∈ indent ls, Plain l := by
  intro l hl
  obtain ⟨l', hl', rfl⟩ := List.mem_map.1 hl
  exact (h l' hl').indent

theorem plain_braces {head : String} {body : List String} (hline : OneLine head) (hsettled : Settled head)
    (h : ∀ l ∈ body, Plain l) : ∀ l ∈ braces head body, Plain l := by
  unfold braces
  refine List.forall_mem_append.2 ⟨List.forall_mem_cons.2 ⟨?_, plain_indent h⟩, ?_⟩
  · exact plain_of_settled (hline.append (by decide)) (hsettled.append _)
  · exact List.forall_mem_singleton.2 ⟨by decide, by decide⟩

/-! ## Statements -/

mutual

/-- **The lines of a statement are plain.** -/
theorem Statement.lines_plain : ∀ {s : Statement}, (∀ n ∈ s.verbatim, Plain n) → ∀ l ∈ s.lines, Plain l
  | .bind name isMutable value, h => by
    obtain ⟨hname, hvalue⟩ := List.forall_mem_cons.1 h
    have hline := Expression.text_oneLine_of_plain hvalue
    have hmark : OneLine (if isMutable then "mut " else "") := by cases isMutable <;> decide
    have hhead : OneLine ("let " ++ (if isMutable then "mut " else "") ++ name) := .between (by decide) hmark hname.1
    rw [Statement.lines]
    refine List.forall_mem_singleton.2 (plain_of_settled ?_ ?_)
    · exact ((hhead.append (by decide)).append hline).append (by decide)
    · exact (settled_of_opens (by decide)).concat [_, _, _, _, _]
  | .expr value, h => by
    have hline : OneLine value.text := Expression.text_oneLine_of_plain h
    have hsettled : AlmostSettled value.text := Expression.text_almostSettled fun n hn => (h n hn).2
    rw [Statement.lines]
    exact List.forall_mem_singleton.2 (plain_of_settled (hline.append (by decide)) (hsettled.settle (by decide)))
  | .tail value, h => by
    have hline : OneLine value.text := Expression.text_oneLine_of_plain h
    have hsettled : AlmostSettled value.text := Expression.text_almostSettled fun n hn => (h n hn).2
    rw [Statement.lines]
    exact List.forall_mem_singleton.2 ⟨hline, hsettled.isDocLine⟩
  | .ret none, _ => by
    rw [Statement.lines]
    exact List.forall_mem_singleton.2 ⟨by decide, by decide⟩
  | .ret (some value), h => by
    have hline : OneLine value.text := Expression.text_oneLine_of_plain h
    rw [Statement.lines]
    refine List.forall_mem_singleton.2 (plain_of_settled (.between (by decide) hline (by decide)) ?_)
    exact (settled_of_opens (by decide)).concat [_, _]
  | .cond test yes none, h => by
    obtain ⟨htest, hyes⟩ := List.forall_mem_append.1 h
    have hline : OneLine test.text := Expression.text_oneLine_of_plain htest
    rw [Statement.lines]
    refine plain_braces (.append (by decide) hline) ?_ (Statement.block_plain hyes)
    exact (settled_of_opens (by decide)).append _
  | .cond test yes (some no), h => by
    obtain ⟨htest, hblocks⟩ := List.forall_mem_append.1 h
    obtain ⟨hyes, hno⟩ := List.forall_mem_append.1 hblocks
    have hline : OneLine test.text := Expression.text_oneLine_of_plain htest
    rw [Statement.lines]
    refine List.forall_mem_append.2 ⟨List.forall_mem_append.2 ⟨List.forall_mem_cons.2 ⟨?_, ?_⟩, ?_⟩, ?_⟩
    · exact plain_of_settled (.between (by decide) hline (by decide))
        ((settled_of_opens (by decide)).concat [_, _])
    · exact plain_indent (Statement.block_plain hyes)
    · exact List.forall_mem_cons.2 ⟨⟨by decide, by decide⟩, plain_indent (Statement.block_plain hno)⟩
    · exact List.forall_mem_singleton.2 ⟨by decide, by decide⟩
  | .condLet pattern value yes, h => by
    obtain ⟨hpattern, hparts⟩ := List.forall_mem_cons.1 h
    obtain ⟨hvalue, hyes⟩ := List.forall_mem_append.1 hparts
    have hline : OneLine value.text := Expression.text_oneLine_of_plain hvalue
    have hhead : OneLine ("if let " ++ pattern ++ " = " ++ value.text) :=
      (OneLine.between (by decide) hpattern.1 (by decide)).append hline
    rw [Statement.lines]
    refine plain_braces hhead ?_ (Statement.block_plain hyes)
    exact (settled_of_opens (by decide)).concat [_, _, _]

theorem Statement.block_plain : ∀ {ss : List Statement}, (∀ n ∈ Statement.verbatims ss, Plain n) →
    ∀ l ∈ Statement.block ss, Plain l
  | [], _ => by nofun
  | s :: ss, h => by
    obtain ⟨hs, hss⟩ := List.forall_mem_append.1 h
    rw [Statement.block]
    exact List.forall_mem_append.2 ⟨Statement.lines_plain hs, Statement.block_plain hss⟩

end

end ApiForge.Code

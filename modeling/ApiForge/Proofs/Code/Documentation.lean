import ApiForge.Proofs.Code.Lines
import ApiForge.Proofs.Text.Cutting

/-!
# Documentation and the rest of a file

Documentation comes from descriptions and may hold any text. It is written on lines of its own that begin with `///`,
and no other line begins so, unless a text that is copied as it is does. So deleting the documentation lines of a file
gives the file without documentation.

* `File.withoutDocs`: a file without the documentation of its types, fields, functions and constants.
* `dropDocLines`: a text without its documentation lines.
* `Strips ls ls'`: deleting the documentation lines of `ls` leaves `ls'`. Every declaration has such lines
  (`Declaration.lines_strips`), and so has a file (`File.lines_strips`).
* `dropDocLines_render`: the statement about texts.
* `indented_path_deleted`: a path with blanks and slashes at its beginning is taken for documentation.
-/

namespace ApiForge.Code

open Text

/-! ## Files without documentation -/

/-- A field without its documentation. -/
def Field.withoutDocs (f : Field) : Field := { f with docs := [] }

/-- A shape whose fields have no documentation. -/
def TypeShape.withoutDocs : TypeShape → TypeShape
  | .record fields => .record (fields.map Field.withoutDocs)
  | .enumeration variants => .enumeration variants
  | .alias target => .alias target

/-- A type without its documentation and that of its fields. -/
def TypeDecl.withoutDocs (t : TypeDecl) : TypeDecl := { t with docs := [], shape := t.shape.withoutDocs }

/-- A function without its documentation. -/
def Func.withoutDocs (f : Func) : Func := { f with docs := [] }

/-- A block of functions without their documentation. -/
def ImplBlock.withoutDocs (b : ImplBlock) : ImplBlock := { b with funcs := b.funcs.map Func.withoutDocs }

/-- A constant without its documentation. -/
def Constant.withoutDocs (c : Constant) : Constant := { c with docs := [] }

/-- A declaration without documentation. -/
def Declaration.withoutDocs : Declaration → Declaration
  | type t => type t.withoutDocs
  | func f => func f.withoutDocs
  | impl b => impl b.withoutDocs
  | const c => const c.withoutDocs

/-- A file without documentation. -/
def File.withoutDocs (f : File) : File := { f with declarations := f.declarations.map Declaration.withoutDocs }

/-- A text without its documentation lines. -/
def dropDocLines (text : String) : String :=
  String.intercalate "\n" ((split '\n' text).filter (!isDocLine ·))

/-! ## Copied texts -/

/-- The texts that are copied into a field. -/
def Field.verbatim (f : Field) : List String := f.name :: (f.type.verbatim ++ Meta.verbatims f.attrs)

/-- The texts that are copied into a variant. -/
def Variant.verbatim (v : Variant) : List String := v.name :: Meta.verbatims v.attrs

/-- The texts that are copied into the shape of a type. -/
def TypeShape.verbatim : TypeShape → List String
  | .record fields => fields.flatMap Field.verbatim
  | .enumeration variants => variants.flatMap Variant.verbatim
  | .alias target => target.verbatim

/-- The texts that are copied into a type declaration. -/
def TypeDecl.verbatim (t : TypeDecl) : List String := t.name :: (Meta.verbatims t.attrs ++ t.shape.verbatim)

/-- The texts that are copied into a function. -/
def Func.verbatim (f : Func) : List String :=
  f.name :: (f.params.flatMap (fun p => p.1 :: p.2.verbatim) ++ (f.result.toList.flatMap TypeExpr.verbatim ++
    Statement.verbatims f.body))

/-- The texts that are copied into a block of functions. -/
def ImplBlock.verbatim (b : ImplBlock) : List String :=
  b.target :: (b.traitName.toList ++ b.funcs.flatMap Func.verbatim)

/-- The texts that are copied into a constant. -/
def Constant.verbatim (c : Constant) : List String := c.name :: (c.type.verbatim ++ c.value.verbatim)

/-- The texts that are copied into a declaration: its names, types, paths and patterns. -/
def Declaration.verbatim : Declaration → List String
  | type t => t.verbatim
  | func f => f.verbatim
  | impl b => b.verbatim
  | const c => c.verbatim

/-- The texts that are copied into a file. Documentation and string literals are not among them. -/
def File.verbatim (f : File) : List String :=
  f.name :: (f.imports.flatMap (fun i => i.module :: i.items) ++ f.declarations.flatMap Declaration.verbatim)

/-! ## Deleting documentation lines -/

/-- Every text of `ls` is one line, and deleting the documentation lines leaves `ls'`. -/
structure Strips (ls ls' : List String) : Prop where
  oneLine : ∀ l ∈ ls, OneLine l
  filter : ls.filter (!isDocLine ·) = ls'

namespace Strips

variable {xs xs' ys ys' : List String}

theorem of_plain (h : ∀ l ∈ xs, Plain l) : Strips xs xs where
  oneLine l hl := (h l hl).1
  filter := List.filter_eq_self.2 fun l hl => by rw [(h l hl).2, Bool.not_false]

theorem append (hx : Strips xs xs') (hy : Strips ys ys') : Strips (xs ++ ys) (xs' ++ ys') where
  oneLine := List.forall_mem_append.2 ⟨hx.oneLine, hy.oneLine⟩
  filter := by rw [List.filter_append, hx.filter, hy.filter]

theorem cons {l : String} (hl : Plain l) (h : Strips xs xs') : Strips (l :: xs) (l :: xs') :=
  append (of_plain (List.forall_mem_singleton.2 hl)) h

theorem flatMap {α β : Type} {f : α → List String} {g : β → List String} {strip : α → β} :
    ∀ {items : List α}, (∀ a ∈ items, Strips (f a) (g (strip a))) →
      Strips (items.flatMap f) ((items.map strip).flatMap g)
  | [], _ => of_plain nofun
  | a :: items, h => by
    obtain ⟨ha, hitems⟩ := List.forall_mem_cons.1 h
    exact ha.append (flatMap hitems)

theorem indent (h : Strips xs xs') : Strips (indent xs) (Code.indent xs') where
  oneLine := by
    intro l hl
    obtain ⟨l', hl', rfl⟩ := List.mem_map.1 hl
    exact .append (by decide) (h.oneLine l' hl')
  filter := by
    rw [Code.indent, List.filter_map, Code.indent, ← h.filter]
    refine congrArg _ (List.filter_congr fun l _ => ?_)
    rw [Function.comp, isDocLine_indent]

theorem braces {head : String} (hline : OneLine head) (hsettled : Settled head) (h : Strips xs xs') :
    Strips (braces head xs) (Code.braces head xs') :=
  append (cons (plain_of_settled (hline.append (by decide)) (hsettled.append _)) h.indent)
    (of_plain (List.forall_mem_singleton.2 ⟨by decide, by decide⟩))

/-- Groups are separated by lines that are no documentation. -/
theorem spaced {α β : Type} {f : α → List String} {g : β → List String} {strip : α → β} :
    ∀ {items : List α}, (∀ a ∈ items, Strips (f a) (g (strip a))) →
      Strips (spaced (items.map f)) (Code.spaced ((items.map strip).map g))
  | [], _ => of_plain nofun
  | [a], h => h a List.mem_cons_self
  | a :: b :: items, h => by
    obtain ⟨ha, hitems⟩ := List.forall_mem_cons.1 h
    exact ha.append (cons ⟨by decide, by decide⟩ (spaced hitems))

end Strips

/-! ## Declarations -/

/-- All documentation is deleted. -/
theorem docLines_strips (docs : List String) : Strips (docLines docs) [] where
  oneLine := by
    intro l hl
    obtain ⟨doc, -, hl⟩ := List.mem_flatMap.1 hl
    obtain ⟨line, hline, rfl⟩ := List.mem_map.1 hl
    obtain ⟨cs, hcs, rfl⟩ := List.mem_map.1 hline
    have hcs_oneLine : OneLine (String.ofList cs) := by
      rw [OneLine, String.toList_ofList]
      exact newline_not_mem_of_mem_lines hcs
    unfold docLine
    split
    · decide
    · exact .append (by decide) hcs_oneLine
  filter := by
    rw [List.filter_eq_nil_iff]
    intro l hl
    obtain ⟨doc, -, hl⟩ := List.mem_flatMap.1 hl
    obtain ⟨line, -, rfl⟩ := List.mem_map.1 hl
    rw [isDocLine_docLine]
    simp

theorem attrLines_plain {attrs : List Meta} (h : ∀ n ∈ Meta.verbatims attrs, OneLine n) :
    ∀ l ∈ attrLines attrs, Plain l := by
  induction attrs with
  | nil => exact fun _ hl => absurd hl List.not_mem_nil
  | cons m ms ih =>
    obtain ⟨hm, hms⟩ := List.forall_mem_append.1 h
    refine List.forall_mem_cons.2 ⟨plain_of_settled ?_ ?_, ih hms⟩
    · exact .between (by decide) (Meta.text_oneLine hm) (by decide)
    · exact (settled_of_opens (by decide)).concat [_, _]

theorem Field.lines_strips {f : Field} (h : ∀ n ∈ f.verbatim, Plain n) : Strips f.lines f.withoutDocs.lines := by
  obtain ⟨hname, hparts⟩ := List.forall_mem_cons.1 h
  obtain ⟨htype, hattrs⟩ := List.forall_mem_append.1 hparts
  have htext : OneLine f.type.text := TypeExpr.text_oneLine_of_plain htype
  have hline : Plain ("pub " ++ f.name ++ ": " ++ f.type.text ++ ",") := by
    refine plain_of_settled ?_ ?_
    · exact ((OneLine.between (by decide) hname.1 (by decide)).append htext).append (by decide)
    · exact (settled_of_opens (by decide)).concat [_, _, _, _]
  have hrest := (Strips.of_plain (attrLines_plain fun n hn => (hattrs n hn).1)).append
    (.of_plain (List.forall_mem_singleton.2 hline))
  unfold Field.lines
  rw [List.append_assoc]
  exact (docLines_strips f.docs).append hrest

theorem Variant.lines_plain {v : Variant} (h : ∀ n ∈ v.verbatim, Plain n) : ∀ l ∈ v.lines, Plain l := by
  obtain ⟨hname, hattrs⟩ := List.forall_mem_cons.1 h
  refine List.forall_mem_append.2 ⟨attrLines_plain fun n hn => (hattrs n hn).1, List.forall_mem_singleton.2 ?_⟩
  exact plain_of_settled (hname.1.append (by decide)) ((almostSettled_of_not_isDocLine hname.2).settle (by decide))

theorem TypeDecl.lines_strips {t : TypeDecl} (h : ∀ n ∈ t.verbatim, Plain n) : Strips t.lines t.withoutDocs.lines := by
  obtain ⟨name, docs, attrs, shape⟩ := t
  obtain ⟨hname, hparts⟩ := List.forall_mem_cons.1 h
  obtain ⟨hattrs, hshape⟩ := List.forall_mem_append.1 hparts
  refine ((docLines_strips docs).append (.of_plain (attrLines_plain fun n hn => (hattrs n hn).1))).append ?_
  have hhead : ∀ keyword, OneLine keyword → OneLine (keyword ++ name) := fun _ hkeyword => hkeyword.append hname.1
  match shape, hshape with
  | .record [], _ =>
    refine .of_plain (List.forall_mem_singleton.2 (plain_of_settled ?_ ?_))
    · exact (hhead _ (by decide)).append (by decide)
    · exact (settled_of_opens (by decide)).concat [_, _]
  | .record (f :: fs), hshape =>
    have hsettled : Settled ("pub struct " ++ name) := (settled_of_opens (by decide)).append _
    refine Strips.braces (hhead _ (by decide)) hsettled (Strips.flatMap fun g hg => ?_)
    exact Field.lines_strips fun n hn => hshape n (List.mem_flatMap.2 ⟨g, hg, hn⟩)
  | .enumeration variants, hshape =>
    refine Strips.braces (hhead _ (by decide)) ((settled_of_opens (by decide)).append _) (.of_plain fun l hl => ?_)
    obtain ⟨v, hv, hl⟩ := List.mem_flatMap.1 hl
    exact Variant.lines_plain (fun n hn => hshape n (List.mem_flatMap.2 ⟨v, hv, hn⟩)) l hl
  | .alias target, hshape =>
    have htarget : OneLine target.text := TypeExpr.text_oneLine_of_plain hshape
    refine .of_plain (List.forall_mem_singleton.2 (plain_of_settled ?_ ?_))
    · exact (((hhead _ (by decide)).append (by decide)).append htarget).append (by decide)
    · exact (settled_of_opens (by decide)).concat [_, _, _, _]

theorem Func.paramTexts_oneLine {f : Func} (h : ∀ p ∈ f.params, OneLine p.1 ∧ ∀ n ∈ p.2.verbatim, OneLine n) :
    ∀ s ∈ f.paramTexts, OneLine s := by
  refine List.forall_mem_append.2 ⟨?_, fun s hs => ?_⟩
  · cases f.receiver <;> decide
  · obtain ⟨p, hp, rfl⟩ := List.mem_map.1 hs
    obtain ⟨hname, htype⟩ := h p hp
    exact .between hname (by decide) (TypeExpr.text_oneLine htype)

theorem Func.signature_oneLine {f : Func} (h : ∀ n ∈ f.verbatim, Plain n) (isPublic : Bool) :
    OneLine (f.signature isPublic) := by
  obtain ⟨hname, hparts⟩ := List.forall_mem_cons.1 h
  obtain ⟨hparams, hrest⟩ := List.forall_mem_append.1 hparts
  obtain ⟨hresult, -⟩ := List.forall_mem_append.1 hrest
  have hparamTexts : ∀ s ∈ f.paramTexts, OneLine s := by
    refine Func.paramTexts_oneLine fun p hp => ?_
    obtain ⟨hkey, htype⟩ := List.forall_mem_cons.1 fun n hn => hparams n (List.mem_flatMap.2 ⟨p, hp, hn⟩)
    exact ⟨hkey.1, fun n hn => (htype n hn).1⟩
  have hvisibility : OneLine (if isPublic then "pub " else "") := by cases isPublic <;> decide
  have hopen : OneLine ((if isPublic then "pub " else "") ++ "fn " ++ f.name ++ "(") :=
    ((hvisibility.append (by decide)).append hname.1).append (by decide)
  refine ((hopen.append (oneLine_commaList hparamTexts)).append (by decide)).append ?_
  split
  · rename_i t ht
    refine OneLine.append (by decide) (TypeExpr.text_oneLine_of_plain fun n hn => hresult n ?_)
    simpa [ht] using hn
  · decide

/-- The head of a function opens with a keyword. -/
theorem Func.signature_settled (f : Func) (isPublic : Bool) : Settled (f.signature isPublic) := by
  have hkeyword : opens ((if isPublic then "pub " else "") ++ "fn ") = true := by cases isPublic <;> decide
  exact (settled_of_opens hkeyword).concat [_, _, _, _, _]

theorem Func.lines_strips {f : Func} (h : ∀ n ∈ f.verbatim, Plain n) (isPublic : Bool) :
    Strips (f.lines isPublic) (f.withoutDocs.lines isPublic) := by
  have hline := Func.signature_oneLine h isPublic
  have hsettled := f.signature_settled isPublic
  obtain ⟨-, hparts⟩ := List.forall_mem_cons.1 h
  obtain ⟨-, hrest⟩ := List.forall_mem_append.1 hparts
  obtain ⟨-, hbody⟩ := List.forall_mem_append.1 hrest
  refine (docLines_strips f.docs).append ?_
  show Strips _ (if f.body.isEmpty then [f.signature isPublic ++ " \x7b\x7d"]
    else braces (f.signature isPublic) (Statement.block f.body))
  split
  · exact .of_plain (List.forall_mem_singleton.2
      (plain_of_settled (hline.append (by decide)) (hsettled.append _)))
  · exact Strips.braces hline hsettled (.of_plain (Statement.block_plain hbody))

theorem ImplBlock.lines_strips {b : ImplBlock} (h : ∀ n ∈ b.verbatim, Plain n) :
    Strips b.lines b.withoutDocs.lines := by
  obtain ⟨htarget, hparts⟩ := List.forall_mem_cons.1 h
  obtain ⟨htrait, hfuncs⟩ := List.forall_mem_append.1 hparts
  have hbody : Strips (spaced (b.funcs.map fun f => f.lines (f.isPublic && b.traitName.isNone)))
      (spaced ((b.funcs.map Func.withoutDocs).map fun f => f.lines (f.isPublic && b.traitName.isNone))) :=
    .spaced fun f hf => Func.lines_strips (fun n hn => hfuncs n (List.mem_flatMap.2 ⟨f, hf, hn⟩)) _
  obtain ⟨target, traitName, funcs⟩ := b
  cases traitName with
  | none => exact Strips.braces (.append (by decide) htarget.1) ((settled_of_opens (by decide)).append _) hbody
  | some name =>
    have hname := htrait name List.mem_cons_self
    have hhead : OneLine ("impl " ++ name ++ " for " ++ target) :=
      (OneLine.between (by decide) hname.1 (by decide)).append htarget.1
    exact Strips.braces hhead ((settled_of_opens (by decide)).concat [_, _, _]) hbody

theorem Constant.lines_strips {c : Constant} (h : ∀ n ∈ c.verbatim, Plain n) :
    Strips c.lines c.withoutDocs.lines := by
  obtain ⟨hname, hparts⟩ := List.forall_mem_cons.1 h
  obtain ⟨htype, hvalue⟩ := List.forall_mem_append.1 hparts
  have htypeText : OneLine c.type.text := TypeExpr.text_oneLine_of_plain htype
  have hvalueText : OneLine c.value.text := Expression.text_oneLine_of_plain hvalue
  refine (docLines_strips c.docs).append (.of_plain (List.forall_mem_singleton.2 (plain_of_settled ?_ ?_)))
  · have hleft : OneLine ("pub const " ++ c.name ++ ": " ++ c.type.text ++ " = ") :=
      ((OneLine.between (by decide) hname.1 (by decide)).append htypeText).append (by decide)
    exact (hleft.append hvalueText).append (by decide)
  · exact (settled_of_opens (by decide)).concat [_, _, _, _, _, _]

/-- **Deleting its documentation lines leaves the lines of a declaration without documentation.** -/
theorem Declaration.lines_strips : ∀ {d : Declaration}, (∀ n ∈ d.verbatim, Plain n) →
    Strips d.lines d.withoutDocs.lines
  | .type _, h => TypeDecl.lines_strips h
  | .func f, h => Func.lines_strips h f.isPublic
  | .impl _, h => ImplBlock.lines_strips h
  | .const _, h => Constant.lines_strips h

/-! ## Files -/

/-- The lines of a file: header, imports, and each declaration after an empty line. -/
def File.lines (f : File) : List String :=
  f.header ++ f.imports.map Import.render ++ f.declarations.flatMap fun d => "" :: d.lines

theorem braces_ne_nil (head : String) (body : List String) : braces head body ≠ [] := by simp [braces]

theorem Declaration.lines_ne_nil (d : Declaration) : d.lines ≠ [] := by
  cases d with
  | type t =>
    refine List.append_ne_nil_of_right_ne_nil _ ?_
    split
    · exact List.cons_ne_nil _ _
    · exact braces_ne_nil _ _
    · exact braces_ne_nil _ _
    · exact List.cons_ne_nil _ _
  | func f =>
    refine List.append_ne_nil_of_right_ne_nil _ ?_
    split
    · exact List.cons_ne_nil _ _
    · exact braces_ne_nil _ _
  | impl b => exact braces_ne_nil _ _
  | const c => exact List.append_ne_nil_of_right_ne_nil _ (List.cons_ne_nil _ _)

/-- A declaration is rendered in one piece, which makes no difference to the text of the file. -/
theorem intercalate_declarations {tail : List String} (htail : tail ≠ []) : ∀ ds : List Declaration,
    String.intercalate "\n" ((ds.flatMap fun d => ["", d.render]) ++ tail) =
      String.intercalate "\n" ((ds.flatMap fun d => "" :: d.lines) ++ tail)
  | [] => rfl
  | d :: ds => by
    have hrest : ∀ g : Declaration → List String, (ds.flatMap g) ++ tail ≠ [] := by simp [htail]
    rw [List.flatMap_cons, List.flatMap_cons, List.append_assoc, List.append_assoc,
      String.intercalate_append_of_ne_nil (List.cons_ne_nil _ _) (hrest _),
      String.intercalate_append_of_ne_nil (List.cons_ne_nil _ _) (hrest _), intercalate_declarations htail ds]
    congr 2
    rw [String.intercalate_cons_cons, String.intercalate_singleton,
      String.intercalate_cons_of_ne_nil d.lines_ne_nil, Declaration.render]

/-- The text of a file is its lines, each with a line break behind it. -/
theorem File.render_eq (f : File) : f.render = String.intercalate "\n" (f.lines ++ [""]) := by
  have hlast : ([""] : List String) ≠ [] := List.cons_ne_nil _ _
  have hhead : f.header ++ f.imports.map Import.render ≠ [] := by simp [File.header]
  have hrest : ∀ g : Declaration → List String, f.declarations.flatMap g ++ [""] ≠ [] := by simp
  have hbreak : f.render = String.intercalate "\n" (f.header ++ f.imports.map Import.render ++
      (f.declarations.flatMap fun d => ["", d.render]) ++ [""]) := by
    rw [String.intercalate_append_of_ne_nil (by simp [File.header]) hlast, String.intercalate_singleton,
      String.append_empty, File.render]
  rw [hbreak, File.lines, List.append_assoc _ _ [""], List.append_assoc _ _ [""],
    String.intercalate_append_of_ne_nil hhead (hrest _), String.intercalate_append_of_ne_nil hhead (hrest _),
    intercalate_declarations hlast]

theorem Import.render_plain {i : Import} (h : ∀ n ∈ i.module :: i.items, Plain n) : Plain i.render := by
  obtain ⟨hmodule, hitems⟩ := List.forall_mem_cons.1 h
  have huse : OneLine ("use " ++ i.module) := .append (by decide) hmodule.1
  unfold Import.render
  split
  · exact plain_of_settled (huse.append (by decide)) ((settled_of_opens (by decide)).concat [_, _])
  · rename_i item heq
    have hitem := (hitems item (heq ▸ List.mem_cons_self)).1
    refine plain_of_settled (((huse.append (by decide)).append hitem).append (by decide)) ?_
    exact (settled_of_opens (by decide)).concat [_, _, _, _]
  · refine plain_of_settled (.between (huse.append (by decide)) (oneLine_commaList fun n hn => (hitems n hn).1)
      (by decide)) ?_
    exact (settled_of_opens (by decide)).concat [_, _, _, _]

/-- The header begins with two slashes only. -/
theorem header_settled : Settled "// Code generated by brrtgen from " := by
  intro rest
  rw [isDocLine, unindented_append]
  rfl

/-- **Deleting its documentation lines leaves the lines of a file without documentation.** -/
theorem File.lines_strips {f : File} (h : ∀ n ∈ f.verbatim, Plain n) : Strips f.lines f.withoutDocs.lines := by
  obtain ⟨hname, hparts⟩ := List.forall_mem_cons.1 h
  obtain ⟨himports, hdecls⟩ := List.forall_mem_append.1 hparts
  have hheader : ∀ l ∈ f.header, Plain l := by
    refine List.forall_mem_cons.2 ⟨?_, List.forall_mem_singleton.2 ⟨by decide, by decide⟩⟩
    exact plain_of_settled (.between (by decide) hname.1 (by decide)) (header_settled.concat [_, _])
  refine (Strips.of_plain (List.forall_mem_append.2 ⟨hheader, fun l hl => ?_⟩)).append (.flatMap fun d hd => ?_)
  · obtain ⟨i, hi, rfl⟩ := List.mem_map.1 hl
    exact Import.render_plain fun n hn => himports n (List.mem_flatMap.2 ⟨i, hi, hn⟩)
  · exact .cons ⟨by decide, by decide⟩
      (Declaration.lines_strips fun n hn => hdecls n (List.mem_flatMap.2 ⟨d, hd, hn⟩))

/-- **Documentation cannot alter the rest of a file.** If no text that is copied into a file has a line break or looks
like a documentation line, deleting the documentation lines of the file gives the file without documentation, whatever
the documentation is. -/
theorem dropDocLines_render (f : File) (h : ∀ n ∈ f.verbatim, OneLine n ∧ isDocLine n = false) :
    dropDocLines f.render = f.withoutDocs.render := by
  have hlast : Strips [""] [""] := .of_plain (List.forall_mem_singleton.2 ⟨by decide, by decide⟩)
  have hstrips : Strips (f.lines ++ [""]) (f.withoutDocs.lines ++ [""]) := (File.lines_strips h).append hlast
  have hsplit : split '\n' f.render = f.lines ++ [""] := by
    rw [File.render_eq]
    exact split_intercalate (by simp) hstrips.oneLine
  rw [dropDocLines, hsplit, hstrips.filter, ← File.render_eq]

/-- A record, a block with one function and a constant, each with documentation that looks like source. -/
def documentedFile : File where
  name := "pets"
  imports := [{ module := "serde", items := ["Deserialize"] }]
  declarations := [
    .type {
      name := "Pet", docs := ["A pet.\npub struct Cat;"], attrs := [.path "allow"],
      shape := .record [{ name := "id", type := .named "u64", docs := ["\x7d\r\n\nfn id() \x7b"] }] },
    .impl {
      target := "Pet",
      funcs := [{ name := "tag", docs := ["*/"], body := [.tail (.lit (.str "a\n/// b"))] }] },
    .const { name := "LIMIT", type := .named "u64", value := .lit (.int 7), docs := ["", "/// 8"] }]

theorem dropDocLines_render_documented :
    (∀ n ∈ documentedFile.verbatim, OneLine n ∧ isDocLine n = false) ∧
      documentedFile.withoutDocs.render ≠ documentedFile.render ∧
      dropDocLines documentedFile.render = documentedFile.withoutDocs.render := by
  have h : ∀ n ∈ documentedFile.verbatim, OneLine n ∧ isDocLine n = false := by decide
  exact ⟨h, by decide, dropDocLines_render documentedFile h⟩

/-- **A path that begins with blanks is taken for documentation.** No copied text begins with a slash, nor has it a
line break, and there is no documentation. Yet a line is deleted. -/
theorem indented_path_deleted :
    ∃ f : File, (∀ n ∈ f.verbatim, OneLine n ∧ n.toList.head? ≠ some '/') ∧ f.withoutDocs = f ∧
      dropDocLines f.render ≠ f.withoutDocs.render := by
  exact ⟨⟨"pets", [], [.func { name := "f", body := [.tail (.path " /// x")] }]⟩, by decide, rfl, by decide +kernel⟩

end ApiForge.Code

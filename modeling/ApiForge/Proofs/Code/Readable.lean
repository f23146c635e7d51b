import ApiForge.Proofs.Code.Lines

/-!
# Types can be read off their texts

No two types have the same text, as long as the names in them are names or paths. A type may stand in front of other
text: as long as that text does not go on with a name or with arguments, it is clear where the type ends.

* `IsPath`, `TypeExpr.WellNamed`: names and paths, and the types that are made of them.
* `TypeExpr.exists_head`: the first character of a text says which form the type has.
* `TypeExpr.Decodes`: the text of a type determines the type and what stands behind it.
* `TypeExpr.commaList_decodes`: so does a list of such types in front of a closing bracket.
* `TypeExpr.text_decodes`: every type with proper names decodes, so types with the same text are the same
  (`TypeExpr.text_eq_iff`).
-/

namespace ApiForge.Code

open Text

/-! ## Names -/

/-- A character of a name or of a path. -/
def isPathChar (c : Char) : Bool := isAlnumAscii c || c == '_' || c == ':'

/-- A name or a path: letters, digits, underscores and colons, and at least one of them. -/
structure IsPath (s : String) : Prop where
  nonempty : s ≠ ""
  chars : ∀ c ∈ s.toList, isPathChar c = true

theorem isPath_iff {s : String} : IsPath s ↔ s ≠ "" ∧ s.toList.all isPathChar = true := by
  rw [List.all_eq_true]
  exact ⟨fun ⟨hne, hchars⟩ => ⟨hne, hchars⟩, fun ⟨hne, hchars⟩ => ⟨hne, hchars⟩⟩

instance (s : String) : Decidable (IsPath s) := decidable_of_iff _ isPath_iff.symm

/-- A type whose names, generic names and lifetimes are names or paths. -/
def TypeExpr.WellNamed (t : TypeExpr) : Prop := ∀ n ∈ t.verbatim, IsPath n

instance (t : TypeExpr) : Decidable t.WellNamed := inferInstanceAs (Decidable (∀ n ∈ t.verbatim, IsPath n))

/-- A text with which a name in front of it does not go on. -/
def EndsName (rest : List Char) : Prop := ∀ c ∈ rest.head?, isPathChar c = false

/-- A text with which a type in front of it does not go on, neither its last name nor a list of arguments. -/
structure Stops (rest : List Char) : Prop where
  name : EndsName rest
  arguments : rest.head? ≠ some '<'

theorem endsName_cons {c : Char} (h : isPathChar c = false) (rest : List Char) : EndsName (c :: rest) := by
  rintro _ ⟨⟩
  exact h

theorem stops_nil : Stops [] := ⟨by nofun, by nofun⟩

theorem stops_cons {c : Char} (hname : isPathChar c = false) (hne : c ≠ '<') (rest : List Char) : Stops (c :: rest) :=
  ⟨endsName_cons hname rest, by simpa using hne⟩

theorem IsPath.exists_cons {s : String} (h : IsPath s) : ∃ c cs, s.toList = c :: cs ∧ isPathChar c = true := by
  cases hs : s.toList with
  | nil => exact absurd (String.toList_eq_nil_iff.1 hs) h.nonempty
  | cons c cs => exact ⟨c, cs, rfl, h.chars c (hs ▸ List.mem_cons_self)⟩

/-- A name ends where its characters end. -/
theorem IsPath.append_inj {s s' : String} {rest rest' : List Char} (hs : IsPath s) (hs' : IsPath s')
    (hrest : EndsName rest) (hrest' : EndsName rest') (heq : s.toList ++ rest = s'.toList ++ rest') :
    s = s' ∧ rest = rest' := by
  have hname {s : String} {rest : List Char} (hs : IsPath s) (hrest : EndsName rest) :
      (s.toList ++ rest).takeWhile isPathChar = s.toList := by
    have hnone : rest.takeWhile isPathChar = [] := by
      cases rest with
      | nil => rfl
      | cons c rest => exact List.takeWhile_cons_of_neg (by simp [hrest c rfl])
    rw [List.takeWhile_append_of_pos hs.chars, hnone, List.append_nil]
  have hchars : s.toList = s'.toList := by rw [← hname hs hrest, heq, hname hs' hrest']
  rw [hchars] at heq
  exact ⟨String.toList_injective hchars, List.append_cancel_left heq⟩

/-! ## First characters -/

/-- What a text that begins with a character can be: a name, or a form with this mark. -/
def markOf? (c : Char) : Option Char := if isPathChar c then none else some c

namespace TypeExpr

/-- The mark in front of a form; a name has none. -/
def mark? : TypeExpr → Option Char
  | named _ | generic _ _ => none
  | ref _ _ => some '&'
  | slice _ => some '['
  | tuple _ => some '('

variable {t u : TypeExpr} {ts us : List TypeExpr} {rest rest' : List Char}

/-- The first character of a text says which form the type has. -/
theorem exists_head (h : t.WellNamed) : ∃ c cs, t.text.toList = c :: cs ∧ markOf? c = t.mark? := by
  have hname {name : String} (hname : IsPath name) (more : List Char) :
      ∃ c cs, name.toList ++ more = c :: cs ∧ markOf? c = none := by
    obtain ⟨c, cs, hchars, hc⟩ := hname.exists_cons
    exact ⟨c, cs ++ more, by rw [hchars, List.cons_append], by rw [markOf?, if_pos hc]⟩
  cases t with
  | named name =>
    obtain ⟨c, cs, hchars, hc⟩ := hname (h name List.mem_cons_self) []
    exact ⟨c, cs, by rwa [text, ← List.append_nil name.toList], hc⟩
  | generic name args =>
    obtain ⟨c, cs, hchars, hc⟩ := hname (h name List.mem_cons_self) ("<" ++ commaList (texts args) ++ ">").toList
    exact ⟨c, cs, by simpa [text] using hchars, hc⟩
  | ref lifetime inner => cases lifetime <;> exact ⟨'&', _, by simp [text]; rfl, rfl⟩
  | slice inner => exact ⟨'[', _, by simp [text]; rfl, rfl⟩
  | tuple items => exact ⟨'(', _, by simp [text]; rfl, rfl⟩

/-- Types with the same text in front have the same form. -/
theorem mark_eq (ht : t.WellNamed) (hu : u.WellNamed) (heq : t.text.toList ++ rest = u.text.toList ++ rest') :
    t.mark? = u.mark? := by
  obtain ⟨c, cs, hc, hmark⟩ := exists_head ht
  obtain ⟨d, ds, hd, hmark'⟩ := exists_head hu
  rw [hc, hd, List.cons_append, List.cons_append] at heq
  rw [← hmark, ← hmark', (List.cons.inj heq).1]

/-- No type begins with a character that is neither one of a name nor a mark. -/
theorem text_append_ne {c : Char} (h : t.WellNamed) (hc : markOf? c = some c) (hmark : c ∉ ['&', '[', '('])
    (cs : List Char) : t.text.toList ++ rest ≠ c :: cs := by
  intro heq
  obtain ⟨d, ds, hd, hform⟩ := exists_head h
  rw [hd, List.cons_append] at heq
  rw [(List.cons.inj heq).1, hc] at hform
  refine hmark ?_
  cases t <;> simp_all [mark?]

/-! ## Lists of types -/

/-- The text of the type determines the type, and what stands behind it. -/
def Decodes (t : TypeExpr) : Prop :=
  ∀ ⦃u : TypeExpr⦄ ⦃rest rest' : List Char⦄, u.WellNamed → Stops rest → Stops rest' →
    t.text.toList ++ rest = u.text.toList ++ rest' → t = u ∧ rest = rest'

/-- What follows the first type of a list. -/
def further (ts : List TypeExpr) : List Char := ts.flatMap fun t => ',' :: ' ' :: t.text.toList

theorem toList_commaList_cons (t : TypeExpr) : ∀ ts : List TypeExpr,
    (commaList (texts (t :: ts))).toList = t.text.toList ++ further ts
  | [] => by rw [texts, texts, commaList, String.intercalate_singleton, further, List.flatMap_nil, List.append_nil]
  | u :: us => by
    have ih := toList_commaList_cons u us
    rw [texts, texts, commaList, String.intercalate_cons_cons]
    rw [texts, commaList] at ih
    simp [ih, further]

/-- The brackets that close a list of types. -/
def IsClosing (c : Char) : Prop := c = '>' ∨ c = ')'

variable {close : Char}

theorem stops_further (hclose : IsClosing close) (ts : List TypeExpr) (rest : List Char) :
    Stops (further ts ++ close :: rest) := by
  cases ts with
  | nil => rcases hclose with rfl | rfl <;> exact stops_cons rfl (by decide) rest
  | cons t ts => exact stops_cons rfl (by decide) _

/-- Types behind the first one are read one after another, up to the closing bracket. -/
theorem further_decodes (hclose : IsClosing close) (hts : ∀ t ∈ ts, t.Decodes) (hus : ∀ u ∈ us, u.WellNamed)
    (heq : further ts ++ close :: rest = further us ++ close :: rest') : ts = us ∧ rest = rest' := by
  have hcomma : close ≠ ',' := by rcases hclose with rfl | rfl <;> decide
  induction ts generalizing us with
  | nil =>
    cases us with
    | nil => exact ⟨rfl, (List.cons.inj heq).2⟩
    | cons u us => exact absurd (List.cons.inj heq).1 hcomma
  | cons t ts ih =>
    cases us with
    | nil => exact absurd (List.cons.inj heq).1 (Ne.symm hcomma)
    | cons u us =>
      obtain ⟨ht, hts'⟩ := List.forall_mem_cons.1 hts
      obtain ⟨hu, hus'⟩ := List.forall_mem_cons.1 hus
      have hall : t.text.toList ++ (further ts ++ close :: rest) = u.text.toList ++ (further us ++ close :: rest') := by
        simpa [further] using heq
      obtain ⟨rfl, hbehind⟩ := ht hu (stops_further hclose ts rest) (stops_further hclose us rest') hall
      obtain ⟨rfl, hend⟩ := ih hts' hus' hbehind
      exact ⟨rfl, hend⟩

/-- **A list of types in front of a closing bracket** determines the types and what stands behind the bracket. -/
theorem commaList_decodes (hclose : IsClosing close) (hts : ∀ t ∈ ts, t.WellNamed ∧ t.Decodes)
    (hus : ∀ u ∈ us, u.WellNamed)
    (heq : (commaList (texts ts)).toList ++ close :: rest = (commaList (texts us)).toList ++ close :: rest') :
    ts = us ∧ rest = rest' := by
  have hmark : markOf? close = some close ∧ close ∉ ['&', '[', '('] := by rcases hclose with rfl | rfl <;> decide
  cases ts with
  | nil =>
    cases us with
    | nil => exact ⟨rfl, (List.cons.inj heq).2⟩
    | cons u us =>
      rw [toList_commaList_cons, List.append_assoc] at heq
      exact absurd heq.symm (text_append_ne (hus u List.mem_cons_self) hmark.1 hmark.2 rest)
  | cons t ts =>
    obtain ⟨⟨ht, htdec⟩, hts'⟩ := List.forall_mem_cons.1 hts
    rw [toList_commaList_cons, List.append_assoc] at heq
    cases us with
    | nil => exact absurd heq (text_append_ne ht hmark.1 hmark.2 rest')
    | cons u us =>
      obtain ⟨hu, hus'⟩ := List.forall_mem_cons.1 hus
      rw [toList_commaList_cons, List.append_assoc] at heq
      obtain ⟨rfl, hbehind⟩ := htdec hu (stops_further hclose ts rest) (stops_further hclose us rest') heq
      obtain ⟨rfl, hend⟩ := further_decodes hclose (fun t ht => (hts' t ht).2) hus' hbehind
      exact ⟨rfl, hend⟩

/-! ## Types -/

theorem wellNamed_of_verbatims : ∀ {ts : List TypeExpr}, (∀ n ∈ verbatims ts, IsPath n) → ∀ t ∈ ts, t.WellNamed
  | [], _ => by nofun
  | t :: ts, h => by
    obtain ⟨ht, hts⟩ := List.forall_mem_append.1 h
    exact List.forall_mem_cons.2 ⟨ht, wellNamed_of_verbatims hts⟩

theorem text_generic (name : String) (args : List TypeExpr) (rest : List Char) :
    (generic name args).text.toList ++ rest =
      name.toList ++ '<' :: ((commaList (texts args)).toList ++ '>' :: rest) := by
  simp [text]

/-- A name without arguments is not read as one with arguments. -/
theorem named_append_ne_generic {name name' : String} (hname : IsPath name) (hname' : IsPath name')
    (hrest : Stops rest) (args : List TypeExpr) :
    (named name).text.toList ++ rest ≠ (generic name' args).text.toList ++ rest' := by
  intro heq
  rw [text_generic] at heq
  obtain ⟨-, rfl⟩ := hname.append_inj hname' hrest.name (endsName_cons rfl _) heq
  exact hrest.arguments rfl

mutual

/-- **The text of a type determines the type**, and where it ends. -/
theorem text_decodes : ∀ {t : TypeExpr}, t.WellNamed → t.Decodes
  | named name, h => by
    intro u rest rest' hu hrest hrest' heq
    have hname : IsPath name := h name List.mem_cons_self
    cases u with
    | named name' =>
      have hname' : IsPath name' := hu name' List.mem_cons_self
      obtain ⟨rfl, hend⟩ := hname.append_inj hname' hrest.name hrest'.name heq
      exact ⟨rfl, hend⟩
    | generic name' args' =>
      exact absurd heq (named_append_ne_generic hname (hu name' List.mem_cons_self) hrest args')
    | ref _ _ | slice _ | tuple _ => exact absurd (mark_eq h hu heq) (by simp [mark?])
  | generic name args, h => by
    intro u rest rest' hu hrest hrest' heq
    obtain ⟨hname, hargs⟩ := List.forall_mem_cons.1 h
    cases u with
    | generic name' args' =>
      obtain ⟨hname', hargs'⟩ := List.forall_mem_cons.1 hu
      rw [text_generic, text_generic] at heq
      obtain ⟨rfl, hinside⟩ := hname.append_inj hname' (endsName_cons rfl _) (endsName_cons rfl _) heq
      obtain ⟨rfl, hend⟩ := commaList_decodes (.inl rfl) (texts_decode hargs) (wellNamed_of_verbatims hargs')
        (List.cons.inj hinside).2
      exact ⟨rfl, hend⟩
    | named name' =>
      exact absurd heq.symm (named_append_ne_generic (hu name' List.mem_cons_self) hname hrest' args)
    | ref _ _ | slice _ | tuple _ => exact absurd (mark_eq h hu heq) (by simp [mark?])
  | ref none inner, h => by
    intro u rest rest' hu hrest hrest' heq
    have hinner : inner.WellNamed := h
    cases u with
    | ref lifetime' inner' =>
      cases lifetime' with
      | none =>
        have hinner' : inner'.WellNamed := hu
        have hall : inner.text.toList ++ rest = inner'.text.toList ++ rest' := by simpa [text] using heq
        obtain ⟨rfl, hend⟩ := text_decodes hinner hinner' hrest hrest' hall
        exact ⟨rfl, hend⟩
      | some lifetime' =>
        -- A lifetime begins with a mark that no type begins with.
        have hall : inner.text.toList ++ rest = '\'' :: (lifetime'.toList ++ ' ' :: (inner'.text.toList ++ rest')) := by
          simpa [text] using heq
        exact absurd hall (text_append_ne hinner (by decide) (by decide) _)
    | named _ | generic _ _ | slice _ | tuple _ => exact absurd (mark_eq h hu heq) (by simp [mark?])
  | ref (some lifetime) inner, h => by
    intro u rest rest' hu hrest hrest' heq
    obtain ⟨hlifetime, hinner⟩ := List.forall_mem_cons.1 h
    cases u with
    | ref lifetime' inner' =>
      cases lifetime' with
      | none =>
        have hinner' : inner'.WellNamed := hu
        have hall : inner'.text.toList ++ rest' = '\'' :: (lifetime.toList ++ ' ' :: (inner.text.toList ++ rest)) := by
          simpa [text] using heq.symm
        exact absurd hall (text_append_ne hinner' (by decide) (by decide) _)
      | some lifetime' =>
        obtain ⟨hlifetime', hinner'⟩ := List.forall_mem_cons.1 hu
        have hall : lifetime.toList ++ ' ' :: (inner.text.toList ++ rest) =
            lifetime'.toList ++ ' ' :: (inner'.text.toList ++ rest') := by simpa [text] using heq
        obtain ⟨rfl, hbehind⟩ := hlifetime.append_inj hlifetime' (endsName_cons rfl _) (endsName_cons rfl _) hall
        obtain ⟨rfl, hend⟩ := text_decodes hinner hinner' hrest hrest' (List.cons.inj hbehind).2
        exact ⟨rfl, hend⟩
    | named _ | generic _ _ | slice _ | tuple _ => exact absurd (mark_eq h hu heq) (by simp [mark?])
  | slice inner, h => by
    intro u rest rest' hu hrest hrest' heq
    have hinner : inner.WellNamed := h
    cases u with
    | slice inner' =>
      have hinner' : inner'.WellNamed := hu
      have hall : inner.text.toList ++ ']' :: rest = inner'.text.toList ++ ']' :: rest' := by simpa [text] using heq
      have hstops (more : List Char) : Stops (']' :: more) := stops_cons rfl (by decide) more
      obtain ⟨rfl, hend⟩ := text_decodes hinner hinner' (hstops rest) (hstops rest') hall
      exact ⟨rfl, (List.cons.inj hend).2⟩
    | named _ | generic _ _ | ref _ _ | tuple _ => exact absurd (mark_eq h hu heq) (by simp [mark?])
  | tuple items, h => by
    intro u rest rest' hu hrest hrest' heq
    cases u with
    | tuple items' =>
      have hall : (commaList (texts items)).toList ++ ')' :: rest =
          (commaList (texts items')).toList ++ ')' :: rest' := by
        simpa [text] using heq
      obtain ⟨rfl, hend⟩ := commaList_decodes (.inr rfl) (texts_decode h) (wellNamed_of_verbatims hu) hall
      exact ⟨rfl, hend⟩
    | named _ | generic _ _ | ref _ _ | slice _ => exact absurd (mark_eq h hu heq) (by simp [mark?])

theorem texts_decode : ∀ {ts : List TypeExpr}, (∀ n ∈ verbatims ts, IsPath n) → ∀ t ∈ ts, t.WellNamed ∧ t.Decodes
  | [], _ => by nofun
  | t :: ts, h => by
    obtain ⟨ht, hts⟩ := List.forall_mem_append.1 h
    exact List.forall_mem_cons.2 ⟨⟨ht, text_decodes ht⟩, texts_decode hts⟩

end

/-- **Types with the same text are the same type.** -/
theorem text_eq_iff (ht : t.WellNamed) (hu : u.WellNamed) : t.text = u.text ↔ t = u := by
  refine ⟨fun h => ?_, congrArg text⟩
  obtain ⟨heq, -⟩ := text_decodes ht hu stops_nil stops_nil (congrArg (fun s => s.toList ++ []) h)
  exact heq

end TypeExpr

/-- Texts that differ in the empty list of arguments alone belong to different types. -/
theorem text_eq_iff_map :
    let t : TypeExpr := .generic "Map" [.ref (some "a") (.slice (.named "u8")), .tuple [.generic "Id" [], .tuple []]]
    let u : TypeExpr := .generic "Map" [.ref (some "a") (.slice (.named "u8")), .tuple [.named "Id", .tuple []]]
    t.text = "Map<&'a [u8], (Id<>, ())>" ∧ u.text = "Map<&'a [u8], (Id, ())>" ∧ t.WellNamed ∧ u.WellNamed ∧
      (t.text = u.text ↔ t = u) := by
  intro t u
  have ht : t.WellNamed := by decide
  have hu : u.WellNamed := by decide
  exact ⟨by decide, by decide, ht, hu, TypeExpr.text_eq_iff ht hu⟩

end ApiForge.Code

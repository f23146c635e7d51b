import ApiForge.Proofs.Route.Template
import Mathlib.Data.List.Forall2

/-!
# The grammar of templates

Which texts are read as templates, and what is read from them. Reading and writing segments undo each other.

* `Segment.Readable piece`: a piece between slashes has no brace, or one placeholder with a name that is not blank.
* `Segment.Proper s`: no slash and no brace stands in the texts of a segment, a name is not blank, and a placeholder
  between two empty texts is no mixed segment.
* `Segment.parse_eq_ok_iff`: what is read from a piece is the proper segment that is written so.
* `Template.parse_exact`: a text is read exactly if it begins with a slash and all its pieces are readable; what is read
  are proper segments that make up the text again; and every list of proper segments is read back when it is written.

A segment with a placeholder is either a plain one or a mixed one, after the texts around it. `Segment.around` is both,
so the two need no proofs of their own.
-/

namespace ApiForge.Route

open Text

namespace Segment

/-! ## Pieces -/

/-- A piece between slashes that can be read: it has no brace, or one opening and one closing brace in this order with a
text between them that is not blank. -/
def Readable (piece : List Char) : Prop :=
  ('\x7b' ∉ piece ∧ '\x7d' ∉ piece) ∨
    (piece.count '\x7b' = 1 ∧ piece.count '\x7d' = 1 ∧ ∃ lead name trail,
      piece = lead ++ '\x7b' :: (name ++ '\x7d' :: trail) ∧ ∃ c ∈ name, isBlank c = false)

/-- The segment with a placeholder between two texts. -/
def around (lead name trail : List Char) : Segment :=
  if lead.isEmpty && trail.isEmpty then param (String.ofList name)
  else mixed (String.ofList lead) (String.ofList name) (String.ofList trail)

section Pieces

variable {piece lead name trail : List Char}

/-- Around a placeholder, a brace stands once exactly if it stands in none of the texts. -/
theorem count_eq_one_iff {c : Char} (hc : c = '\x7b' ∨ c = '\x7d') :
    (lead ++ '\x7b' :: (name ++ '\x7d' :: trail)).count c = 1 ↔ c ∉ lead ∧ c ∉ name ∧ c ∉ trail := by
  have hsum : (lead ++ '\x7b' :: (name ++ '\x7d' :: trail)).count c =
      lead.count c + name.count c + trail.count c + 1 := by
    rcases hc with rfl | rfl
    · rw [List.count_append, List.count_cons_self, List.count_append, List.count_cons_of_ne (by decide)]
      omega
    · rw [List.count_append, List.count_cons_of_ne (by decide), List.count_append, List.count_cons_self]
      omega
  rw [hsum, ← List.count_eq_zero, ← List.count_eq_zero, ← List.count_eq_zero]
  omega

/-- A piece without braces is read as it is. -/
theorem parse_plain (hopen : '\x7b' ∉ piece) (hclose : '\x7d' ∉ piece) :
    parse piece = .ok (literal (String.ofList piece)) := by
  simp [parse, List.count_eq_zero.2 hopen, List.count_eq_zero.2 hclose]

/-- A piece with one placeholder is read as the segment with it. -/
theorem parse_around (hopen : (lead ++ '\x7b' :: (name ++ '\x7d' :: trail)).count '\x7b' = 1)
    (hclose : (lead ++ '\x7b' :: (name ++ '\x7d' :: trail)).count '\x7d' = 1) (hname : ∃ c ∈ name, isBlank c = false) :
    parse (lead ++ '\x7b' :: (name ++ '\x7d' :: trail)) = .ok (around lead name trail) := by
  have hlead : '\x7b' ∉ lead := ((count_eq_one_iff (.inl rfl)).1 hopen).1
  have hfree : '\x7d' ∉ name := ((count_eq_one_iff (.inr rfl)).1 hclose).2.1
  have hcutOpen : cut? '\x7b' (lead ++ '\x7b' :: (name ++ '\x7d' :: trail)) = some (lead, name ++ '\x7d' :: trail) :=
    cut?_eq_some_iff.2 ⟨rfl, hlead⟩
  have hcutClose : cut? '\x7d' (name ++ '\x7d' :: trail) = some (name, trail) := cut?_eq_some_iff.2 ⟨rfl, hfree⟩
  have hblank : name.all isBlank = false := by
    obtain ⟨c, hc, hnot⟩ := hname
    exact List.all_eq_false.2 ⟨c, hc, by simp [hnot]⟩
  unfold parse around
  simp only [hopen, hclose, hcutOpen, hcutClose, hblank]
  cases lead.isEmpty && trail.isEmpty <;> rfl

/-- Only readable pieces are read. -/
theorem readable_of_parse {s : Segment} (h : parse piece = .ok s) : Readable piece := by
  unfold parse at h
  dsimp only at h
  split at h
  · rename_i hnone
    exact .inl ⟨List.count_eq_zero.1 hnone.1, List.count_eq_zero.1 hnone.2⟩
  · split at h
    · cases h
    · split at h
      · cases h
      · rename_i hsome hbalanced hsingle
        have hcounts : piece.count '\x7b' = 1 ∧ piece.count '\x7d' = 1 := by omega
        split at h
        · cases h
        · rename_i lead rest hopen
          split at h
          · cases h
          · rename_i name trail hclose
            obtain ⟨hpiece, -⟩ := cut?_eq_some_iff.1 hopen
            obtain ⟨rfl, -⟩ := cut?_eq_some_iff.1 hclose
            split at h
            · cases h
            · rename_i hblank
              exact .inr ⟨hcounts.1, hcounts.2, lead, name, trail, hpiece, by simpa using hblank⟩

/-- **A piece is read exactly if it is readable.** -/
theorem exists_parse_iff : (∃ s, parse piece = .ok s) ↔ Readable piece := by
  constructor
  · rintro ⟨s, h⟩
    exact readable_of_parse h
  · rintro (⟨hopen, hclose⟩ | ⟨hopen, hclose, lead, name, trail, rfl, hname⟩)
    · exact ⟨_, parse_plain hopen hclose⟩
    · exact ⟨_, parse_around hopen hclose hname⟩

end Pieces

/-! ## Segments -/

/-- The texts in a segment. -/
def texts : Segment → List String
  | literal text => [text]
  | param name => [name]
  | mixed lead name trail => [lead, name, trail]

/-- A character does not stand in the texts of a segment. -/
def Lacks (s : Segment) (c : Char) : Prop := ∀ text ∈ s.texts, c ∉ text.toList

/-- A segment that can be written and read. -/
structure Proper (s : Segment) : Prop where
  slash : s.Lacks '/'
  opening : s.Lacks '\x7b'
  closing : s.Lacks '\x7d'
  named : ∀ name, s.paramName? = some name → ∃ c ∈ name.toList, isBlank c = false
  placed : ∀ name, s ≠ mixed "" name ""

section Segments

variable {piece lead name trail : List Char} {s : Segment} {c : Char}

theorem around_text : (around lead name trail).text.toList = lead ++ '\x7b' :: (name ++ '\x7d' :: trail) := by
  unfold around
  split
  · rename_i hempty
    simp only [Bool.and_eq_true, List.isEmpty_iff] at hempty
    obtain ⟨rfl, rfl⟩ := hempty
    simp [text, braced_toList]
  · simp [text, braced_toList]

theorem around_paramName? : (around lead name trail).paramName? = some (String.ofList name) := by
  unfold around
  split <;> rfl

theorem around_lacks (hlead : c ∉ lead) (hname : c ∉ name) (htrail : c ∉ trail) : (around lead name trail).Lacks c := by
  unfold around
  split
  · simpa [Lacks, texts] using hname
  · simpa [Lacks, texts] using ⟨hlead, hname, htrail⟩

theorem around_ne (other : String) : around lead name trail ≠ mixed "" other "" := by
  unfold around
  split
  · exact nofun
  · rename_i hempty
    intro h
    obtain ⟨hlead, -, htrail⟩ := Segment.mixed.inj h
    simp_all

theorem around_mixed {lead name trail : String} (h : mixed lead name trail ≠ mixed "" name "") :
    around lead.toList name.toList trail.toList = mixed lead name trail := by
  unfold around
  rw [if_neg, String.ofList_toList, String.ofList_toList, String.ofList_toList]
  simpa using h

/-- A slash in a written segment stands in one of its texts. -/
theorem Proper.not_mem_slash (h : s.Proper) : '/' ∉ s.text.toList := by
  have hslash := h.slash
  cases s with
  | literal t => simpa [Lacks, texts, text] using hslash
  | param n => simpa [Lacks, texts, text, braced_toList] using hslash
  | mixed l n t => simpa [Lacks, texts, text, braced_toList] using hslash

/-- **Reading a piece and writing a segment are inverse**: what is read from a piece is the proper segment that is
written so. -/
theorem parse_eq_ok_iff (hslash : '/' ∉ piece) : parse piece = .ok s ↔ s.text.toList = piece ∧ s.Proper := by
  constructor
  · intro h
    rcases readable_of_parse h with ⟨hopen, hclose⟩ | ⟨hopen, hclose, lead, name, trail, rfl, hname⟩
    · rw [parse_plain hopen hclose] at h
      cases h
      have hlacks : ∀ c, c ∉ piece → (literal (String.ofList piece)).Lacks c := by simp [Lacks, texts]
      exact ⟨String.toList_ofList, hlacks _ hslash, hlacks _ hopen, hlacks _ hclose, nofun, nofun⟩
    · rw [parse_around hopen hclose hname] at h
      cases h
      obtain ⟨ho, ho', ho''⟩ := (count_eq_one_iff (.inl rfl)).1 hopen
      obtain ⟨hc, hc', hc''⟩ := (count_eq_one_iff (.inr rfl)).1 hclose
      simp only [List.mem_append, List.mem_cons, not_or] at hslash
      obtain ⟨hlead, -, hname', -, htrail⟩ := hslash
      refine ⟨around_text, around_lacks hlead hname' htrail, around_lacks ho ho' ho'', around_lacks hc hc' hc'', ?_,
        around_ne⟩
      intro n hn
      rw [around_paramName?] at hn
      cases hn
      simpa using hname
  · rintro ⟨rfl, hs⟩
    have hopen := hs.opening
    have hclose := hs.closing
    cases s with
    | literal t =>
      rw [text, parse_plain (hopen t List.mem_cons_self) (hclose t List.mem_cons_self), String.ofList_toList]
    | param n =>
      simp only [Lacks, texts, List.mem_singleton, forall_eq] at hopen hclose
      have hread := @parse_around [] n.toList []
        ((count_eq_one_iff (.inl rfl)).2 ⟨List.not_mem_nil, hopen, List.not_mem_nil⟩)
        ((count_eq_one_iff (.inr rfl)).2 ⟨List.not_mem_nil, hclose, List.not_mem_nil⟩) (hs.named n rfl)
      simpa [text, braced_toList, around] using hread
    | mixed l n t =>
      simp only [Lacks, texts, List.mem_cons, List.not_mem_nil, or_false, forall_eq_or_imp, forall_eq] at hopen hclose
      have hread := parse_around ((count_eq_one_iff (.inl rfl)).2 hopen) ((count_eq_one_iff (.inr rfl)).2 hclose)
        (hs.named n rfl)
      rw [around_mixed (hs.placed n)] at hread
      simpa [text, braced_toList] using hread

end Segments

end Segment

/-! ## Templates -/

namespace Template

/-- A list of segments as written: each with a slash before it. -/
def written (ss : List Segment) : String := String.ofList ('/' :: joinWith ['/'] (ss.map (·.text.toList)))

section Reading

variable {raw : String} {parts : List (List Char)} {ss : List Segment}

/-- Pieces are read one by one. -/
theorem parseSegments_eq_ok_iff (raw : String) :
    parseSegments raw parts = .ok ss ↔ List.Forall₂ (fun part s => Segment.parse part = .ok s) parts ss := by
  induction parts generalizing ss with
  | nil =>
    rw [List.forall₂_nil_left_iff, parseSegments, Except.ok.injEq]
    exact eq_comm
  | cons part parts ih =>
    rw [List.forall₂_cons_left_iff]
    unfold parseSegments
    cases hs : Segment.parse part with
    | error fault => simp
    | ok s =>
      cases hrest : parseSegments raw parts with
      | error e =>
        have hnone : ∀ rest, ¬ List.Forall₂ (fun part s => Segment.parse part = .ok s) parts rest := by
          intro rest hall
          rw [ih.2 hall] at hrest
          cases hrest
        simp [Except.map, hnone]
      | ok rest =>
        simp only [Except.map, Except.ok.injEq]
        constructor
        · rintro rfl
          exact ⟨s, rest, rfl, ih.1 hrest, rfl⟩
        · rintro ⟨s', rest', rfl, hall, rfl⟩
          rw [ih.2 hall] at hrest
          cases hrest
          rfl

/-- All pieces are read exactly if each of them is readable. -/
theorem exists_parseSegments_iff (raw : String) :
    (∃ ss, parseSegments raw parts = .ok ss) ↔ ∀ part ∈ parts, Segment.Readable part := by
  simp only [parseSegments_eq_ok_iff, ← Segment.exists_parse_iff]
  induction parts with
  | nil => simp
  | cons part parts ih => simp [List.forall₂_cons_left_iff, ← ih]

/-- A fault in a piece is reported with the template. -/
theorem parseSegments_error {e : CompileError} (h : parseSegments raw parts = .error e) :
    ∃ reason, e = .invalidRouteTemplate raw reason := by
  induction parts with
  | nil => cases h
  | cons part parts ih =>
    unfold parseSegments at h
    cases hs : Segment.parse part with
    | error fault =>
      rw [hs] at h
      cases h
      exact ⟨_, rfl⟩
    | ok s =>
      rw [hs] at h
      cases hrest : parseSegments raw parts with
      | error e' =>
        rw [hrest] at h
        cases h
        exact ih hrest
      | ok rest =>
        rw [hrest] at h
        cases h

end Reading

/-- What is read from a text with a slash in front. -/
theorem parse_of_slash {raw : String} {rest : List Char} (h : raw.toList = '/' :: rest) :
    parse raw = (parseSegments raw (pieces '/' rest)).map (⟨raw, ·⟩) := by
  simp only [parse, h]

theorem parse_of_not_slash {raw : String} (h : ∀ rest, raw.toList ≠ '/' :: rest) :
    parse raw = .error (.invalidRouteTemplate raw "template must start with '/'") := by
  unfold parse
  split
  · rename_i rest hraw
    exact absurd hraw (h rest)
  · rfl

/-- An error names the text. -/
theorem parse_error {raw : String} {e : CompileError} (h : parse raw = .error e) :
    ∃ reason, e = .invalidRouteTemplate raw reason := by
  by_cases hslash : ∃ rest, raw.toList = '/' :: rest
  · obtain ⟨rest, hraw⟩ := hslash
    rw [parse_of_slash hraw] at h
    cases hss : parseSegments raw (pieces '/' rest) with
    | error e' =>
      rw [hss] at h
      cases h
      exact parseSegments_error hss
    | ok ss =>
      rw [hss] at h
      cases h
  · rw [parse_of_not_slash fun rest h => hslash ⟨rest, h⟩] at h
    cases h
    exact ⟨_, rfl⟩

theorem parse_eq_ok_iff {raw : String} {t : Template} :
    parse raw = .ok t ↔ ∃ rest, raw.toList = '/' :: rest ∧ t.raw = raw ∧
      List.Forall₂ (fun part s => Segment.parse part = .ok s) (pieces '/' rest) t.segments := by
  by_cases hslash : ∃ rest, raw.toList = '/' :: rest
  · obtain ⟨rest, hraw⟩ := hslash
    rw [parse_of_slash hraw]
    simp only [hraw, List.cons.injEq, true_and, exists_eq_left', ← parseSegments_eq_ok_iff raw]
    cases hss : parseSegments raw (pieces '/' rest) with
    | error e => simp [Except.map]
    | ok ss =>
      obtain ⟨raw', ss'⟩ := t
      simp [Except.map, eq_comm]
  · have hnone : ∀ rest, raw.toList ≠ '/' :: rest := fun rest h => hslash ⟨rest, h⟩
    rw [parse_of_not_slash hnone]
    simp [hnone]

/-- What is read keeps its text and has proper segments. -/
theorem parse_proper {raw : String} {t : Template} (h : parse raw = .ok t) :
    t.raw = raw ∧ written t.segments = raw ∧ ∀ s ∈ t.segments, s.Proper := by
  obtain ⟨hraw, hread⟩ := parse_read h
  refine ⟨hraw, ?_, ?_⟩
  · rw [written, ← hread.raw, String.ofList_toList, hraw]
  · obtain ⟨rest, -, -, hall⟩ := parse_eq_ok_iff.1 h
    have hpieces := (List.forall₂_and_left _ _).2 ⟨fun _ hpiece => not_mem_of_mem_pieces hpiece, hall⟩
    have hproper : List.Forall₂ (fun (s : Segment) _ => s.Proper ∧ True) t.segments (pieces '/' rest) :=
      (hpieces.imp fun _ _ ⟨hslash, hs⟩ => ⟨((Segment.parse_eq_ok_iff hslash).1 hs).2, trivial⟩).flip
    exact ((List.forall₂_and_left _ _).1 hproper).1

/-- Proper segments are read back when they are written. -/
theorem parse_written {ss : List Segment} (hne : ss ≠ []) (hss : ∀ s ∈ ss, s.Proper) :
    parse (written ss) = .ok ⟨written ss, ss⟩ := by
  have hslash : ∀ piece ∈ ss.map (·.text.toList), '/' ∉ piece := by
    intro piece hpiece
    obtain ⟨s, hs, rfl⟩ := List.mem_map.1 hpiece
    exact (hss s hs).not_mem_slash
  have hpieces : pieces '/' (joinWith ['/'] (ss.map (·.text.toList))) = ss.map (·.text.toList) :=
    pieces_joinWith (by simpa using hne) hslash
  refine parse_eq_ok_iff.2 ⟨_, String.toList_ofList, rfl, ?_⟩
  rw [hpieces, List.forall₂_map_left_iff, List.forall₂_same]
  intro s hs
  exact (Segment.parse_eq_ok_iff (hss s hs).not_mem_slash).2 ⟨rfl, hss s hs⟩

/-- **Templates are read exactly by their grammar, and reading undoes writing.** A text is read exactly if it begins
with a slash and every piece between slashes is readable; otherwise the error names it. What is read keeps the text: its
segments are proper, and written out they make it up again. And every list of proper segments, once written, is read as
these segments. -/
theorem parse_exact :
    (∀ raw, ((∃ t, parse raw = .ok t) ↔
        ∃ rest, raw.toList = '/' :: rest ∧ ∀ piece ∈ pieces '/' rest, Segment.Readable piece) ∧
      (∀ e, parse raw = .error e → ∃ reason, e = .invalidRouteTemplate raw reason) ∧
      ∀ t, parse raw = .ok t → t.raw = raw ∧ written t.segments = raw ∧ ∀ s ∈ t.segments, s.Proper) ∧
    ∀ ss : List Segment, ss ≠ [] → (∀ s ∈ ss, s.Proper) → parse (written ss) = .ok ⟨written ss, ss⟩ := by
  refine ⟨fun raw => ⟨?_, fun e => parse_error, fun t => parse_proper⟩, fun ss => parse_written⟩
  constructor
  · rintro ⟨t, h⟩
    obtain ⟨rest, hraw, -, hall⟩ := parse_eq_ok_iff.1 h
    exact ⟨rest, hraw, (exists_parseSegments_iff raw).1 ⟨t.segments, (parseSegments_eq_ok_iff raw).2 hall⟩⟩
  · rintro ⟨rest, hraw, hpieces⟩
    obtain ⟨ss, hss⟩ := (exists_parseSegments_iff raw).2 hpieces
    exact ⟨⟨raw, ss⟩, by rw [parse_of_slash hraw, hss]; rfl⟩

/-- Segments with blanks around a name, without a text, and without a text after the name. -/
def oddSegments : List Segment := [.param "\u2003id ", .literal "", .mixed "é" "id" ""]

theorem proper_oddSegments : ∀ s ∈ oddSegments, s.Proper := by
  have hlacks : ∀ s ∈ oddSegments, s.Lacks '/' ∧ s.Lacks '\x7b' ∧ s.Lacks '\x7d' := by
    simp [oddSegments, Segment.Lacks, Segment.texts]
  have hnamed : ∀ s ∈ oddSegments, ∀ name, s.paramName? = some name → ∃ c ∈ name.toList, isBlank c = false := by
    simp [oddSegments, Segment.paramName?, isBlank]
  intro s hs
  obtain ⟨hslash, hopen, hclose⟩ := hlacks s hs
  refine ⟨hslash, hopen, hclose, hnamed s hs, ?_⟩
  rintro name rfl
  simp [oddSegments] at hs

theorem parse_exact_oddSegments : (∀ s ∈ oddSegments, s.Proper) ∧
    written oddSegments = "/\x7b\u2003id \x7d//é\x7bid\x7d" ∧
    parse (written oddSegments) = .ok ⟨written oddSegments, oddSegments⟩ :=
  ⟨proper_oddSegments, by decide, parse_exact.2 oddSegments (by simp [oddSegments]) proper_oddSegments⟩

end Template

end ApiForge.Route

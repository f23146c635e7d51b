import ApiForge.Proofs.Route.Template
import Mathlib.Data.List.Forall2

/-!
# Paths that misfit a template

A path that a template does not match either is no instance of it at all, or only the text after some placeholder is
wrong. Which of the two it is does not depend on the order in which the parts are compared.

* `Segment.Admits part s`: a part of a path fits a segment, but for the text after the placeholder.
* `Segment.MissesTrail part s`: the text after the placeholder is wrong.
* `FirstMiss ss parts i`: the first segment whose trail is missed has the index `i`.
* `matchFrom_says`: what the outcome says about segments and parts, by induction on both.
* `matchPath_classified`: a path is a structural mismatch exactly if every segment admits its part and some trail is
  missed, and no match at all exactly if some segment does not admit its part, wherever it stands.
-/

namespace ApiForge.Route

open Text

/-! ## Segments -/

namespace Segment

/-- A part of a path fits a segment, but for the text after the placeholder: a literal is the part, a placeholder takes
a part that is not empty, and a part that begins with the text before a placeholder goes on with something else than
nothing or the text after it. -/
def Admits (part : List Char) : Segment → Prop
  | literal text => text.toList = part
  | param _ => part ≠ []
  | mixed lead _ trail => ∃ rest, part = lead.toList ++ rest ∧ rest ≠ [] ∧ rest ≠ trail.toList

/-- What follows the text before a placeholder does not end with the text after it. -/
def MissesTrail (part : List Char) : Segment → Prop
  | literal _ => False
  | param _ => False
  | mixed lead _ trail => ∃ rest, part = lead.toList ++ rest ∧ ¬ trail.toList <:+ rest

end Segment

namespace Template

open Segment

/-- How a part compares with a segment, read off the two alone. -/
theorem fit_says (part : List Char) (s : Segment) :
    match fit part s with
    | .plain | .bound _ _ => s.Admits part ∧ ¬ s.MissesTrail part
    | .wrongTrail => s.Admits part ∧ s.MissesTrail part
    | .unfit => ¬ s.Admits part := by
  fun_cases fit part s with
  | case1 text h => exact ⟨h, id⟩
  | case2 text h => exact h
  | case3 name h => simpa [Admits] using h
  | case4 name h => exact ⟨by simpa [Admits] using h, id⟩
  | case5 lead name trail hlead =>
    rintro ⟨rest, hpart, -⟩
    rw [afterLead?_eq_some_iff.2 hpart] at hlead
    cases hlead
  | case6 lead name trail hlead =>
    rintro ⟨rest, hpart, hrest, -⟩
    exact hrest (List.append_cancel_left (hpart.symm.trans (afterLead?_eq_some_iff.1 hlead)))
  | case7 lead name trail rest hrest hlead htrail =>
    have hpart := afterLead?_eq_some_iff.1 hlead
    have hmiss : ¬ trail.toList <:+ rest := by
      rintro ⟨middle, hmiddle⟩
      rw [beforeTrail?_eq_some_iff.2 hmiddle.symm] at htrail
      cases htrail
    refine ⟨⟨rest, hpart, hrest, ?_⟩, rest, hpart, hmiss⟩
    rintro rfl
    exact hmiss List.suffix_rfl
  | case8 lead name trail rest hrest hlead htrail =>
    rintro ⟨rest', hpart, -, hne⟩
    obtain rfl := List.append_cancel_left (hpart.symm.trans (afterLead?_eq_some_iff.1 hlead))
    exact hne (beforeTrail?_eq_some_iff.1 htrail)
  | case9 lead name trail rest hrest hlead middle hmiddle htrail =>
    have hpart := afterLead?_eq_some_iff.1 hlead
    have hend := beforeTrail?_eq_some_iff.1 htrail
    refine ⟨⟨rest, hpart, hrest, ?_⟩, ?_⟩
    · rintro rfl
      exact hmiddle (by simpa using hend)
    · rintro ⟨rest', hpart', hmiss⟩
      obtain rfl := List.append_cancel_left (hpart.symm.trans hpart')
      exact hmiss ⟨middle, hend.symm⟩

/-! ## Segments in a row -/

/-- Every segment admits its part, and there are as many segments as parts. -/
abbrev AdmitsAll (ss : List Segment) (parts : List (List Char)) : Prop :=
  List.Forall₂ (fun s part => s.Admits part) ss parts

/-- The first segment whose trail is missed by its part has the index `i`. -/
def FirstMiss (ss : List Segment) (parts : List (List Char)) (i : Nat) : Prop :=
  (∃ s part, ss[i]? = some s ∧ parts[i]? = some part ∧ s.MissesTrail part) ∧
    ∀ j < i, ∀ s part, ss[j]? = some s → parts[j]? = some part → ¬ s.MissesTrail part

section Misses

variable {s : Segment} {ss : List Segment} {part : List Char} {parts : List (List Char)} {i j : Nat}

theorem not_firstMiss_nil : ¬ FirstMiss [] parts i := by
  rintro ⟨⟨s, part, hs, -⟩, -⟩
  simp at hs

/-- The first miss is at the head, or the head is no miss and the first miss is that of the others. -/
theorem firstMiss_zero : FirstMiss (s :: ss) (part :: parts) 0 ↔ s.MissesTrail part := by
  simp [FirstMiss]

theorem firstMiss_succ :
    FirstMiss (s :: ss) (part :: parts) (i + 1) ↔ ¬ s.MissesTrail part ∧ FirstMiss ss parts i := by
  constructor
  · rintro ⟨hmiss, hbefore⟩
    refine ⟨hbefore 0 (Nat.succ_pos i) s part rfl rfl, hmiss, fun j hj => ?_⟩
    exact hbefore (j + 1) (Nat.succ_lt_succ hj)
  · rintro ⟨hhead, hmiss, hbefore⟩
    refine ⟨hmiss, fun j hj => ?_⟩
    cases j with
    | zero =>
      rintro _ _ ⟨⟩ ⟨⟩
      exact hhead
    | succ j => exact hbefore j (Nat.lt_of_succ_lt_succ hj)

/-- There is at most one first miss. -/
theorem FirstMiss.unique (h : FirstMiss ss parts i) (h' : FirstMiss ss parts j) : i = j := by
  obtain ⟨⟨s, part, hs, hpart, hmiss⟩, hbefore⟩ := h
  obtain ⟨⟨s', part', hs', hpart', hmiss'⟩, hbefore'⟩ := h'
  rcases Nat.lt_trichotomy i j with hlt | heq | hlt
  · exact absurd hmiss (hbefore' i hlt s part hs hpart)
  · exact heq
  · exact absurd hmiss' (hbefore j hlt s' part' hs' hpart')

end Misses

/-- What an outcome says about segments, counted from an index on, and parts of a path. -/
def Says (i : Nat) (ss : List Segment) (parts : List (List Char)) : Match → Prop
  | .matched _ => AdmitsAll ss parts ∧ ∀ k, ¬ FirstMiss ss parts k
  | .mismatch j => AdmitsAll ss parts ∧ ∃ k, j = i + k ∧ FirstMiss ss parts k
  | .noMatch => ¬ AdmitsAll ss parts

/-- One more segment in front: a part that it does not admit decides alone, and a trail that is missed here comes before
all others. -/
theorem Says.before {i : Nat} {ss : List Segment} {parts : List (List Char)} {m : Match} (h : Says (i + 1) ss parts m)
    (part : List Char) (s : Segment) : Says i (s :: ss) (part :: parts) ((fit part s).before i m) := by
  have hfit := fit_says part s
  -- a head that is admitted and not missed shifts the first miss of the others by one
  have hkept : s.Admits part ∧ ¬ s.MissesTrail part → Says i (s :: ss) (part :: parts) m := by
    rintro ⟨hadmits, hmiss⟩
    cases m with
    | noMatch =>
      intro hall
      exact h (List.forall₂_cons.1 hall).2
    | mismatch j =>
      obtain ⟨hall, k, rfl, hfirst⟩ := h
      exact ⟨.cons hadmits hall, k + 1, by omega, firstMiss_succ.2 ⟨hmiss, hfirst⟩⟩
    | matched captures =>
      obtain ⟨hall, hnone⟩ := h
      refine ⟨.cons hadmits hall, fun k hk => ?_⟩
      cases k with
      | zero => exact hmiss (firstMiss_zero.1 hk)
      | succ k => exact hnone k (firstMiss_succ.1 hk).2
  cases hcase : fit part s with
  | unfit =>
    rw [hcase] at hfit
    intro hall
    exact hfit (List.forall₂_cons.1 hall).1
  | plain =>
    rw [hcase] at hfit
    cases m <;> exact hkept hfit
  | bound name value =>
    rw [hcase] at hfit
    cases m <;> exact hkept hfit
  | wrongTrail =>
    rw [hcase] at hfit
    obtain ⟨hadmits, hmiss⟩ := hfit
    cases m with
    | noMatch =>
      intro hall
      exact h (List.forall₂_cons.1 hall).2
    | mismatch j => exact ⟨.cons hadmits h.1, 0, rfl, firstMiss_zero.2 hmiss⟩
    | matched captures => exact ⟨.cons hadmits h.1, 0, rfl, firstMiss_zero.2 hmiss⟩

/-- **What an outcome says is so.** -/
theorem matchFrom_says (ss : List Segment) : ∀ (i : Nat) (parts : List (List Char)),
    Says i ss parts (matchFrom i ss parts) := by
  induction ss with
  | nil =>
    intro i parts
    cases parts with
    | nil => exact ⟨.nil, fun _ => not_firstMiss_nil⟩
    | cons part parts => exact nofun
  | cons s ss ih =>
    intro i parts
    cases parts with
    | nil => exact nofun
    | cons part parts => exact (ih (i + 1) parts).before part s

/-! ## Paths -/

/-- A path begins with a slash, and every segment of the template admits its part. -/
def Admits (t : Template) (path : String) : Prop :=
  ∃ rest, path.toList = '/' :: rest ∧ AdmitsAll t.segments (pieces '/' rest)

/-- A path begins with a slash, and the first segment whose trail it misses has the index `i`. -/
def Misses (t : Template) (path : String) (i : Nat) : Prop :=
  ∃ rest, path.toList = '/' :: rest ∧ FirstMiss t.segments (pieces '/' rest) i

theorem matchPath_of_slash (t : Template) {path : String} {rest : List Char} (h : path.toList = '/' :: rest) :
    t.matchPath path = matchFrom 0 t.segments (pieces '/' rest) := by
  simp only [matchPath, h]

theorem matchPath_of_not_slash (t : Template) {path : String} (h : ∀ rest, path.toList ≠ '/' :: rest) :
    t.matchPath path = .noMatch := by
  unfold matchPath
  split
  · rename_i rest hpath
    exact absurd hpath (h rest)
  · rfl

section Paths

variable {t : Template} {path : String} {rest : List Char} {i j : Nat}

theorem admits_iff (h : path.toList = '/' :: rest) : t.Admits path ↔ AdmitsAll t.segments (pieces '/' rest) := by
  simp [Admits, h]

theorem misses_iff (h : path.toList = '/' :: rest) : t.Misses path i ↔ FirstMiss t.segments (pieces '/' rest) i := by
  simp [Misses, h]

/-- What the outcome for a path says. -/
theorem matchPath_says (t : Template) (path : String) :
    match t.matchPath path with
    | .matched _ => t.Admits path ∧ ∀ i, ¬ t.Misses path i
    | .mismatch i => t.Admits path ∧ t.Misses path i
    | .noMatch => ¬ t.Admits path := by
  by_cases hslash : ∃ rest, path.toList = '/' :: rest
  · obtain ⟨rest, hpath⟩ := hslash
    have hsays := matchFrom_says t.segments 0 (pieces '/' rest)
    rw [matchPath_of_slash t hpath]
    simp only [admits_iff hpath, misses_iff hpath]
    cases hm : matchFrom 0 t.segments (pieces '/' rest) with
    | matched captures => rwa [hm] at hsays
    | noMatch => rwa [hm] at hsays
    | mismatch j =>
      rw [hm] at hsays
      obtain ⟨hall, k, rfl, hfirst⟩ := hsays
      rw [Nat.zero_add]
      exact ⟨hall, hfirst⟩
  · have hnone : ∀ rest, path.toList ≠ '/' :: rest := fun rest h => hslash ⟨rest, h⟩
    rw [matchPath_of_not_slash t hnone]
    rintro ⟨rest, hpath, -⟩
    exact hnone rest hpath

theorem Misses.unique (h : t.Misses path i) (h' : t.Misses path j) : i = j := by
  obtain ⟨rest, hpath, hfirst⟩ := h
  exact hfirst.unique ((misses_iff hpath).1 h')

end Paths

/-- **Mismatches and paths that do not match are told apart exactly.** A path is a structural mismatch in a segment if
every segment of the template admits its part and this is the first one whose trail is missed. It does not match at all
if it is neither matched nor such a mismatch, and that is so exactly if some segment does not admit its part: this
outranks every trail that is missed, before it or after it. -/
theorem matchPath_classified (t : Template) (path : String) :
    (∀ i, t.matchPath path = .mismatch i ↔ t.Admits path ∧ t.Misses path i) ∧
    (t.matchPath path = .noMatch ↔
      (∀ captures, t.matchPath path ≠ .matched captures) ∧ ∀ i, ¬ (t.Admits path ∧ t.Misses path i)) ∧
    (t.matchPath path = .noMatch ↔ ¬ t.Admits path) := by
  have hsays := matchPath_says t path
  cases hm : t.matchPath path with
  | matched captures =>
    rw [hm] at hsays
    obtain ⟨hadmits, hnone⟩ := hsays
    refine ⟨fun i => iff_of_false nofun fun h => hnone i h.2, iff_of_false nofun fun h => ?_, ?_⟩
    · exact h.1 captures rfl
    · exact iff_of_false nofun fun h => h hadmits
  | mismatch j =>
    rw [hm] at hsays
    obtain ⟨hadmits, hmiss⟩ := hsays
    refine ⟨fun i => ⟨?_, ?_⟩, iff_of_false nofun fun h => ?_, ?_⟩
    · rintro ⟨⟩
      exact ⟨hadmits, hmiss⟩
    · rintro ⟨-, hmiss'⟩
      rw [hmiss.unique hmiss']
    · exact h.2 j ⟨hadmits, hmiss⟩
    · exact iff_of_false nofun fun h => h hadmits
  | noMatch =>
    rw [hm] at hsays
    refine ⟨fun i => iff_of_false nofun fun h => hsays h.1, iff_of_true rfl ⟨nofun, ?_⟩, iff_of_true rfl hsays⟩
    exact fun i h => hsays h.1

/-- A literal that differs outranks a trail that is missed before it. -/
example :
    let t : Template := ⟨"/file\x7bid\x7d.json/meta", [.mixed "file" "id" ".json", .literal "meta"]⟩
    t.matchPath "/file1.xml/meta" = .mismatch 0 ∧ t.matchPath "/file1.xml/other" = .noMatch := by
  decide

end Template

end ApiForge.Route

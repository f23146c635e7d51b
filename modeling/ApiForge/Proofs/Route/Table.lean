import ApiForge.Proofs.Text.Cutting
import ApiForge.Route.Table

/-!
# What a route table answers

The outcome of routing, read off the table alone.

* `Below base path rel`: where a path lies below a base path.
* `IsFirst P items a`: the first item with a property.
* `search_eq_matched_iff`, `search_eq_mismatch_iff`, `search_eq_noMatch_iff`: the search gives the first route of the
  method that takes the path; only if none does, the first one that the path misfits; and otherwise nothing. A misfit
  that is remembered goes along in the induction, since a later match overrides it.
* `search_filter`: routes of other methods play no part.
* `Table.route_exact`: all of this for a whole table.
-/

namespace ApiForge.Route

open Text

/-! ## Base paths -/

/-- Where a path lies below a base path. Every path lies below the empty base. Below another one lie the base itself, at
the top, and what goes on after it with a slash. -/
inductive Below (base path : String) : String → Prop where
  | anywhere : base = "" → Below base path path
  | top : base ≠ "" → path = base → Below base path "/"
  | inside (rest : String) : base ≠ "" → path = base ++ ("/" ++ rest) → Below base path ("/" ++ rest)

theorem ofList_slash (rest : List Char) : String.ofList ('/' :: rest) = "/" ++ String.ofList rest :=
  String.ofList_cons

theorem toList_slash (rest : String) : ("/" ++ rest).toList = '/' :: rest.toList := by
  rw [String.toList_append]
  rfl

/-- Stripping the base path gives the place of the path below it. -/
theorem Table.relative?_eq_some_iff {t : Table} {path rel : String} :
    t.relative? path = some rel ↔ Below t.basePath path rel := by
  unfold Table.relative?
  by_cases hbase : t.basePath = ""
  · rw [if_pos (String.isEmpty_iff.2 hbase), Option.some.injEq]
    constructor
    · rintro rfl
      exact .anywhere hbase
    · intro h
      cases h with
      | anywhere => rfl
      | top hne => exact absurd hbase hne
      | inside rest hne => exact absurd hbase hne
  · rw [if_neg fun h => hbase (String.isEmpty_iff.1 h)]
    constructor
    · intro h
      split at h
      · rename_i hlead
        have hpath := afterLead?_eq_some_iff.1 hlead
        rw [List.append_nil, String.toList_inj] at hpath
        cases h
        exact .top hbase hpath
      · rename_i rest hlead
        have hpath := afterLead?_eq_some_iff.1 hlead
        cases h
        rw [ofList_slash]
        refine .inside _ hbase (String.toList_inj.1 ?_)
        rw [hpath, String.toList_append, toList_slash, String.toList_ofList]
      · cases h
    · intro h
      cases h with
      | anywhere h => exact absurd h hbase
      | top _ hpath =>
        have hlead : afterLead? t.basePath.toList path.toList = some [] :=
          afterLead?_eq_some_iff.2 (by rw [hpath, List.append_nil])
        rw [hlead]
      | inside rest _ hpath =>
        have hlead : afterLead? t.basePath.toList path.toList = some ('/' :: rest.toList) :=
          afterLead?_eq_some_iff.2 (by rw [hpath, String.toList_append, toList_slash])
        rw [hlead, ← String.ofList_toList (s := "/" ++ rest), toList_slash]
        rfl

/-- A path lies at one place below a base path. -/
theorem Below.unique {base path rel rel' : String} (h : Below base path rel) (h' : Below base path rel') :
    rel = rel' := by
  have hrel := (Table.relative?_eq_some_iff (t := ⟨[], base⟩)).2 h
  have hrel' := (Table.relative?_eq_some_iff (t := ⟨[], base⟩)).2 h'
  exact Option.some.inj (hrel.symm.trans hrel')

/-- There is at most one relative path to speak of. -/
theorem Below.exists_iff {base path rel : String} {P : String → Prop} (h : Below base path rel) :
    (∃ rel', Below base path rel' ∧ P rel') ↔ P rel := by
  constructor
  · rintro ⟨rel', h', hP⟩
    rwa [h.unique h']
  · exact fun hP => ⟨rel, h, hP⟩

/-- What goes on after a base path with a slash lies there. -/
theorem below_append (base rest : String) : Below base (base ++ ("/" ++ rest)) ("/" ++ rest) := by
  by_cases hbase : base = ""
  · subst hbase
    rw [String.empty_append]
    exact .anywhere rfl
  · exact .inside rest hbase rfl

/-! ## The first of its kind -/

section First

variable {α : Type} {P : α → Prop}

/-- The first of the items with a property. -/
def IsFirst (P : α → Prop) (items : List α) (a : α) : Prop :=
  ∃ before after, items = before ++ a :: after ∧ P a ∧ ∀ b ∈ before, ¬P b

theorem not_isFirst_nil {a : α} : ¬IsFirst P [] a := by
  rintro ⟨before, after, h, -⟩
  cases before <;> cases h

/-- The first item with the property is the head, or the head lacks it and it is the first of the others. -/
theorem isFirst_cons {x a : α} {items : List α} :
    IsFirst P (x :: items) a ↔ (P x ∧ x = a) ∨ (¬P x ∧ IsFirst P items a) := by
  constructor
  · rintro ⟨before, after, h, ha, hbefore⟩
    cases before with
    | nil =>
      cases h
      exact .inl ⟨ha, rfl⟩
    | cons y before =>
      cases h
      refine .inr ⟨hbefore x List.mem_cons_self, before, after, rfl, ha, fun b hb => ?_⟩
      exact hbefore b (List.mem_cons_of_mem x hb)
  · rintro (⟨hx, rfl⟩ | ⟨hx, before, after, rfl, ha, hbefore⟩)
    · exact ⟨[], items, rfl, hx, fun b hb => by cases hb⟩
    · exact ⟨x :: before, after, rfl, ha, List.forall_mem_cons.2 ⟨hx, hbefore⟩⟩

/-- The first item with a property stands no later than any item with it. -/
theorem exists_isFirst {a : α} (ha : P a) (after : List α) : ∀ before : List α,
    ∃ b, IsFirst P (before ++ a :: after) b ∧ (b = a ∨ b ∈ before)
  | [] => ⟨a, isFirst_cons.2 (.inl ⟨ha, rfl⟩), .inl rfl⟩
  | x :: before => by
    by_cases hx : P x
    · exact ⟨x, isFirst_cons.2 (.inl ⟨hx, rfl⟩), .inr List.mem_cons_self⟩
    · obtain ⟨b, hb, hplace⟩ := exists_isFirst ha after before
      exact ⟨b, isFirst_cons.2 (.inr ⟨hx, hb⟩), hplace.imp_right (List.mem_cons_of_mem x)⟩

end First

/-! ## Searching -/

namespace Entry

/-- The route is one of the method, and its template takes the path with these captures. -/
def Takes (method rel : String) (captures : Captures) (e : Entry) : Prop :=
  e.method = method ∧ e.template.matchPath rel = .matched captures

/-- The route is one of the method, and the path misfits its template in this segment. -/
def Misfits (method rel : String) (segment : Nat) (e : Entry) : Prop :=
  e.method = method ∧ e.template.matchPath rel = .mismatch segment

/-- The route is one of the method, and its template takes the path. -/
def Matches (method rel : String) (e : Entry) : Prop := ∃ captures, e.Takes method rel captures

/-- The route is one of the method, and the path misfits its template. -/
def Mismatches (method rel : String) (e : Entry) : Prop := ∃ segment, e.Misfits method rel segment

end Entry

namespace Table

variable {method rel : String}

/-- The four ways in which a route goes into the search. -/
theorem entry_cases (method rel : String) (e : Entry) : e.method ≠ method ∨
    (∃ captures, e.Takes method rel captures) ∨ (∃ segment, e.Misfits method rel segment) ∨
    (e.method = method ∧ e.template.matchPath rel = .noMatch) := by
  by_cases hm : e.method = method
  · refine .inr ?_
    cases hmatch : e.template.matchPath rel with
    | matched captures => exact .inl ⟨captures, hm, hmatch⟩
    | mismatch segment => exact .inr (.inl ⟨segment, hm, hmatch⟩)
    | noMatch => exact .inr (.inr ⟨hm, rfl⟩)
  · exact .inl hm

theorem search_cons_other {e : Entry} (h : e.method ≠ method) (es : List Entry) (seen : Option (Entry × Nat)) :
    search method rel (e :: es) seen = search method rel es seen := if_neg h

theorem search_cons_takes {e : Entry} {captures : Captures} (h : e.Takes method rel captures) (es : List Entry)
    (seen : Option (Entry × Nat)) : search method rel (e :: es) seen = .matched e captures :=
  (if_pos h.1).trans (by rw [h.2])

theorem search_cons_misfits {e : Entry} {segment : Nat} (h : e.Misfits method rel segment) (es : List Entry)
    (seen : Option (Entry × Nat)) :
    search method rel (e :: es) seen = search method rel es (seen.or (some (e, segment))) :=
  (if_pos h.1).trans (by rw [h.2])

theorem search_cons_noMatch {e : Entry} (h : e.template.matchPath rel = .noMatch) (es : List Entry)
    (seen : Option (Entry × Nat)) : search method rel (e :: es) seen = search method rel es seen := by
  rw [search, h]
  split <;> rfl

/-- The search gives a match exactly for the first route that takes the path. -/
theorem search_eq_matched_iff {entry : Entry} {captures : Captures} : ∀ {entries : List Entry}
    {seen : Option (Entry × Nat)}, search method rel entries seen = .matched entry captures ↔
      IsFirst (Entry.Matches method rel) entries entry ∧ entry.Takes method rel captures
  | [], some _ | [], none => by
    constructor
    · intro h
      cases h
    · rintro ⟨h, -⟩
      exact absurd h not_isFirst_nil
  | e :: es, seen => by
    rw [isFirst_cons]
    rcases entry_cases method rel e with hother | ⟨cs, htakes⟩ | ⟨i, hmisfits⟩ | ⟨-, hno⟩
    · have hnot : ¬e.Matches method rel := fun ⟨_, h⟩ => hother h.1
      rw [search_cons_other hother, search_eq_matched_iff]
      simp only [hnot, false_and, not_false_eq_true, true_and, false_or]
    · have hyes : e.Matches method rel := ⟨cs, htakes⟩
      rw [search_cons_takes htakes]
      simp only [hyes, true_and, not_true_eq_false, false_and, or_false, Outcome.matched.injEq]
      constructor
      · rintro ⟨rfl, rfl⟩
        exact ⟨rfl, htakes⟩
      · rintro ⟨rfl, h⟩
        exact ⟨rfl, Match.matched.inj (htakes.2.symm.trans h.2)⟩
    · have hnot : ¬e.Matches method rel := fun ⟨_, h⟩ => by cases hmisfits.2.symm.trans h.2
      rw [search_cons_misfits hmisfits, search_eq_matched_iff]
      simp only [hnot, false_and, not_false_eq_true, true_and, false_or]
    · have hnot : ¬e.Matches method rel := fun ⟨_, h⟩ => by cases hno.symm.trans h.2
      rw [search_cons_noMatch hno, search_eq_matched_iff]
      simp only [hnot, false_and, not_false_eq_true, true_and, false_or]

/-- The search gives a misfit exactly if no route takes the path, for the one that is remembered or else for the first
one. -/
theorem search_eq_mismatch_iff {entry : Entry} {segment : Nat} : ∀ {entries : List Entry} {seen : Option (Entry × Nat)},
    search method rel entries seen = .mismatch entry segment ↔ (∀ e ∈ entries, ¬e.Matches method rel) ∧
      (seen = some (entry, segment) ∨
        seen = none ∧ IsFirst (Entry.Mismatches method rel) entries entry ∧ entry.Misfits method rel segment)
  | [], some (e, i) => by
    simp [search]
  | [], none => by
    simp [search, not_isFirst_nil]
  | e :: es, seen => by
    rw [List.forall_mem_cons, isFirst_cons]
    rcases entry_cases method rel e with hother | ⟨cs, htakes⟩ | ⟨i, hmisfits⟩ | ⟨-, hno⟩
    · have hnot : ¬e.Matches method rel := fun ⟨_, h⟩ => hother h.1
      have hfits : ¬e.Mismatches method rel := fun ⟨_, h⟩ => hother h.1
      rw [search_cons_other hother, search_eq_mismatch_iff]
      simp only [hnot, hfits, false_and, not_false_eq_true, true_and, false_or]
    · have hyes : e.Matches method rel := ⟨cs, htakes⟩
      rw [search_cons_takes htakes]
      simp only [hyes, not_true_eq_false, false_and, reduceCtorEq]
    · have hnot : ¬e.Matches method rel := fun ⟨_, h⟩ => by cases hmisfits.2.symm.trans h.2
      have hyes : e.Mismatches method rel := ⟨i, hmisfits⟩
      rw [search_cons_misfits hmisfits, search_eq_mismatch_iff]
      simp only [hnot, hyes, not_false_eq_true, true_and, not_true_eq_false, false_and, or_false]
      cases seen with
      | some remembered => simp
      | none =>
        simp only [Option.none_or, Option.some.injEq, Prod.mk.injEq, reduceCtorEq, false_and, or_false, true_and,
          false_or]
        constructor
        · rintro ⟨hes, rfl, rfl⟩
          exact ⟨hes, rfl, hmisfits⟩
        · rintro ⟨hes, rfl, h⟩
          exact ⟨hes, rfl, Match.mismatch.inj (hmisfits.2.symm.trans h.2)⟩
    · have hnot : ¬e.Matches method rel := fun ⟨_, h⟩ => by cases hno.symm.trans h.2
      have hfits : ¬e.Mismatches method rel := fun ⟨_, h⟩ => by cases hno.symm.trans h.2
      rw [search_cons_noMatch hno, search_eq_mismatch_iff]
      simp only [hnot, hfits, false_and, not_false_eq_true, true_and, false_or]

/-- The search gives nothing exactly if nothing is remembered and no route of the method has to do with the path. -/
theorem search_eq_noMatch_iff : ∀ {entries : List Entry} {seen : Option (Entry × Nat)},
    search method rel entries seen = .noMatch ↔
      seen = none ∧ ∀ e ∈ entries, e.method = method → e.template.matchPath rel = .noMatch
  | [], some _ => by simp [search]
  | [], none => by simp [search]
  | e :: es, seen => by
    rw [List.forall_mem_cons]
    rcases entry_cases method rel e with hother | ⟨cs, htakes⟩ | ⟨i, hmisfits⟩ | ⟨-, hno⟩
    · rw [search_cons_other hother, search_eq_noMatch_iff]
      simp only [hother, false_imp_iff, true_and]
    · rw [search_cons_takes htakes]
      simp [htakes.1, htakes.2]
    · rw [search_cons_misfits hmisfits, search_eq_noMatch_iff]
      simp [hmisfits.1, hmisfits.2]
    · rw [search_cons_noMatch hno, search_eq_noMatch_iff]
      simp [hno]

/-- Routes of other methods play no part in the search. -/
theorem search_filter : ∀ (entries : List Entry) (seen : Option (Entry × Nat)),
    search method rel (entries.filter (·.method == method)) seen = search method rel entries seen
  | [], _ => rfl
  | e :: es, seen => by
    rcases entry_cases method rel e with hother | ⟨cs, htakes⟩ | ⟨i, hmisfits⟩ | ⟨hm, hno⟩
    · rw [List.filter_cons_of_neg (by simpa using hother), search_cons_other hother, search_filter]
    · rw [List.filter_cons_of_pos (by simpa using htakes.1), search_cons_takes htakes, search_cons_takes htakes]
    · rw [List.filter_cons_of_pos (by simpa using hmisfits.1), search_cons_misfits hmisfits,
        search_cons_misfits hmisfits, search_filter]
    · rw [List.filter_cons_of_pos (by simpa using hm), search_cons_noMatch hno, search_cons_noMatch hno, search_filter]

/-! ## Whole tables -/

theorem route_of_below {t : Table} {path : String} (h : Below t.basePath path rel) :
    t.route method path = search method rel t.entries none := by
  rw [route, relative?_eq_some_iff.2 h]

/-- Outside of the base path there is no outcome but the one for no route. -/
theorem route_cases (t : Table) (method path : String) :
    (∃ rel, Below t.basePath path rel ∧ t.route method path = search method rel t.entries none) ∨
      (∀ rel, ¬Below t.basePath path rel) ∧ t.route method path = .noMatch := by
  cases hrel : t.relative? path with
  | some rel =>
    have hbelow := relative?_eq_some_iff.1 hrel
    exact .inl ⟨rel, hbelow, route_of_below hbelow⟩
  | none =>
    refine .inr ⟨fun rel h => ?_, by rw [route, hrel]⟩
    cases hrel.symm.trans (relative?_eq_some_iff.2 h)

/-- **The outcome of routing is exact.** For a path below the base path the first route of the method whose template
takes what is left of the path answers, with the captures of the template; if none does, the first one that this misfits
is named with the segment; and otherwise, as for a path that is not below the base path, there is no match. Hence only
the routes of the method and their order count, whatever routes of other methods stand between them, and a base path is
only taken off. -/
theorem route_exact (t : Table) (method path : String) :
    (∀ entry captures, t.route method path = .matched entry captures ↔ ∃ rel, Below t.basePath path rel ∧
      IsFirst (Entry.Matches method rel) t.entries entry ∧ entry.Takes method rel captures) ∧
    (∀ entry segment, t.route method path = .mismatch entry segment ↔ ∃ rel, Below t.basePath path rel ∧
      (∀ e ∈ t.entries, ¬e.Matches method rel) ∧
      IsFirst (Entry.Mismatches method rel) t.entries entry ∧ entry.Misfits method rel segment) ∧
    (t.route method path = .noMatch ↔ ∀ rel, Below t.basePath path rel →
      ∀ e ∈ t.entries, e.method = method → e.template.matchPath rel = .noMatch) ∧
    (∀ entries : List Entry, entries.filter (·.method == method) = t.entries.filter (·.method == method) →
      route ⟨entries, t.basePath⟩ method path = t.route method path) ∧
    (∀ rest, t.route method (t.basePath ++ ("/" ++ rest)) = route ⟨t.entries, ""⟩ method ("/" ++ rest)) := by
  refine ⟨fun entry captures => ?_, fun entry segment => ?_, ?_, fun entries h => ?_, fun rest => ?_⟩
  · rcases route_cases t method path with ⟨rel, hbelow, hroute⟩ | ⟨hoff, hroute⟩
    · rw [hroute, search_eq_matched_iff, hbelow.exists_iff]
    · rw [hroute]
      refine iff_of_false nofun ?_
      rintro ⟨rel, hbelow, -⟩
      exact hoff rel hbelow
  · rcases route_cases t method path with ⟨rel, hbelow, hroute⟩ | ⟨hoff, hroute⟩
    · rw [hroute, search_eq_mismatch_iff, hbelow.exists_iff]
      simp only [reduceCtorEq, true_and, false_or]
    · rw [hroute]
      refine iff_of_false nofun ?_
      rintro ⟨rel, hbelow, -⟩
      exact hoff rel hbelow
  · rcases route_cases t method path with ⟨rel, hbelow, hroute⟩ | ⟨hoff, hroute⟩
    · rw [hroute, search_eq_noMatch_iff]
      constructor
      · rintro ⟨-, h⟩ rel' hbelow'
        rwa [← hbelow.unique hbelow']
      · exact fun h => ⟨rfl, h rel hbelow⟩
    · rw [hroute]
      exact ⟨fun _ rel hbelow => absurd hbelow (hoff rel), fun _ => rfl⟩
  · rcases route_cases t method path with ⟨rel, hbelow, hroute⟩ | ⟨hoff, hroute⟩
    · rw [hroute, route_of_below (t := ⟨entries, t.basePath⟩) hbelow, ← search_filter entries, h, search_filter]
    · rcases route_cases ⟨entries, t.basePath⟩ method path with ⟨rel, hbelow, -⟩ | ⟨-, hroute'⟩
      · exact absurd hbelow (hoff rel)
      · rw [hroute, hroute']
  · rw [route_of_below (below_append t.basePath rest), route_of_below (t := ⟨t.entries, ""⟩) (.anywhere rfl)]

end Table

end ApiForge.Route

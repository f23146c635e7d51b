import ApiForge.Proofs.Text.Cutting
import ApiForge.Route.Template

/-!
# Paths made from templates

A template stands for the paths that one gets by putting texts in place of its placeholders.

* `Template.fill t values`: the path with a text for each placeholder, made from the template as it is written.
* `Template.Read`: what is known of a template that has been read. Its segments, written out and joined with slashes,
  give the template again, and no brace stands in them but those around a placeholder (`parse_read`).
* `matchPath_fill`: a template matches the paths made from it, and captures the texts put in.
* `matchPath_names`: whatever path matches, the captured names are the placeholders in their order.
* `matchPath_matched_iff`: a path matches exactly if it is made from the template, and what it captures are the texts
  that it was made with.

Filling in works on the text of the template and matching on its segments. Both are compared with the pieces that the
segments stand for (`filledAll`), segment by segment.
-/

namespace ApiForge.Route

open Text

/-! ## Filling in -/

/-- A text with its placeholders filled in, one after another. Nothing is kept of what stands inside of braces. -/
def fillFrom : (inside : Bool) → List Char → List (List Char) → List Char
  | _, [], _ => []
  | true, c :: cs, values => fillFrom (c != '\x7d') cs values
  | false, c :: cs, values =>
    if c = '\x7b' then values.headD [] ++ fillFrom true cs values.tail else c :: fillFrom false cs values

/-- The path made from a template by putting a text in place of each placeholder, in order. -/
def Template.fill (t : Template) (values : List String) : String :=
  String.ofList (fillFrom false t.raw.toList (values.map String.toList))

theorem fillFrom_outside {values : List (List Char)} (rest : List Char) : ∀ {text : List Char}, '\x7b' ∉ text →
    fillFrom false (text ++ rest) values = text ++ fillFrom false rest values
  | [], _ => rfl
  | c :: text, h => by
    rw [List.mem_cons, not_or] at h
    rw [List.cons_append, fillFrom, if_neg (Ne.symm h.1), fillFrom_outside rest h.2, List.cons_append]

theorem fillFrom_inside {values : List (List Char)} (rest : List Char) : ∀ {name : List Char}, '\x7d' ∉ name →
    fillFrom true (name ++ '\x7d' :: rest) values = fillFrom false rest values
  | [], _ => rfl
  | c :: name, h => by
    rw [List.mem_cons, not_or] at h
    have hc : (c != '\x7d') = true := bne_iff_ne.2 (Ne.symm h.1)
    rw [List.cons_append, fillFrom, hc, fillFrom_inside rest h.2]

/-! ## Segments -/

namespace Segment

/-- No brace stands where it could be taken for one of a placeholder. -/
def Clean : Segment → Prop
  | literal t => '\x7b' ∉ t.toList
  | param name => '\x7d' ∉ name.toList
  | mixed lead name trail => '\x7b' ∉ lead.toList ∧ '\x7d' ∉ name.toList ∧ '\x7b' ∉ trail.toList

theorem braced_toList (name : String) : (braced name).toList = '\x7b' :: (name.toList ++ ['\x7d']) := by
  simp [braced]

/-- A segment that has been read is written as before, and clean. -/
theorem parse_ok {cs : List Char} {s : Segment} (h : parse cs = .ok s) : s.text.toList = cs ∧ s.Clean := by
  unfold parse at h
  dsimp only at h
  split at h
  · rename_i hnone
    cases h
    exact ⟨String.toList_ofList, by rw [Clean, String.toList_ofList]; exact List.count_eq_zero.1 hnone.1⟩
  · split at h
    · cases h
    · split at h
      · cases h
      · rename_i hsome hbalanced hsingle
        split at h
        · cases h
        · rename_i lead rest hopen
          split at h
          · cases h
          · rename_i name trail hclose
            obtain ⟨rfl, hlead⟩ := cut?_eq_some_iff.1 hopen
            obtain ⟨rfl, hname⟩ := cut?_eq_some_iff.1 hclose
            -- There is one opening brace, so none is left behind the first one.
            have htrail : '\x7b' ∉ trail := by
              rw [← List.count_eq_zero]
              simp only [List.count_append, List.count_cons_self, List.count_cons] at hsingle
              omega
            split at h
            · cases h
            · split at h
              · rename_i hempty
                simp only [Bool.and_eq_true, List.isEmpty_iff] at hempty
                obtain ⟨rfl, rfl⟩ := hempty
                cases h
                exact ⟨by simp [text, braced_toList], by rw [Clean, String.toList_ofList]; exact hname⟩
              · cases h
                refine ⟨by simp [text, braced_toList], ?_⟩
                simp only [Clean, String.toList_ofList]
                exact ⟨hlead, hname, htrail⟩

/-- The piece of a path that a segment stands for, with a text for its placeholder. -/
def filled (value : List Char) : Segment → List Char
  | literal t => t.toList
  | param _ => value
  | mixed lead _ trail => lead.toList ++ value ++ trail.toList

/-- The texts that a segment leaves for those after it. -/
def left {α : Type} (values : List α) : Segment → List α
  | literal _ => values
  | param _ => values.tail
  | mixed _ _ _ => values.tail

theorem left_eq {α : Type} (values : List α) (s : Segment) :
    s.left values = if s.paramName?.isSome then values.tail else values := by
  cases s <;> rfl

/-- Filling in takes a segment to the piece that it stands for. -/
theorem fillFrom_text {s : Segment} (h : s.Clean) (rest : List Char) (values : List (List Char)) :
    fillFrom false (s.text.toList ++ rest) values =
      s.filled (values.headD []) ++ fillFrom false rest (s.left values) := by
  cases s with
  | literal t => exact fillFrom_outside rest h
  | param name =>
    have hbraced : (braced name).toList ++ rest = '\x7b' :: (name.toList ++ '\x7d' :: rest) := by simp [braced_toList]
    rw [text, hbraced, fillFrom, if_pos rfl, fillFrom_inside rest h]
    rfl
  | mixed lead name trail =>
    obtain ⟨hlead, hname, htrail⟩ := h
    have hsplit : (text (mixed lead name trail)).toList ++ rest =
        lead.toList ++ ('\x7b' :: (name.toList ++ '\x7d' :: (trail.toList ++ rest))) := by
      simp [text, braced_toList]
    rw [hsplit, fillFrom_outside _ hlead, fillFrom, if_pos rfl, fillFrom_inside _ hname, fillFrom_outside _ htrail]
    simp only [filled, left, List.append_assoc]

theorem not_mem_filled {c : Char} {s : Segment} {value : List Char} (hs : c ∉ s.text.toList) (hv : c ∉ value) :
    c ∉ s.filled value := by
  cases s with
  | literal t => exact hs
  | param name => exact hv
  | mixed lead name trail =>
    simp only [text, String.toList_append, List.mem_append, not_or] at hs
    simp only [filled, List.mem_append, not_or]
    exact ⟨⟨hs.1.1, hv⟩, hs.2⟩

theorem subset_filled {s : Segment} {name : String} (h : s.paramName? = some name) (value : List Char) :
    value ⊆ s.filled value := by
  intro c hc
  cases s with
  | literal t => cases h
  | param n => exact hc
  | mixed lead n trail => exact List.mem_append_left _ (List.mem_append_right _ hc)

end Segment

/-- The pieces of a path that segments stand for, with texts for their placeholders. -/
def filledAll : List Segment → List (List Char) → List (List Char)
  | [], _ => []
  | s :: ss, values => s.filled (values.headD []) :: filledAll ss (s.left values)

theorem filledAll_ne_nil {ss : List Segment} (h : ss ≠ []) (values : List (List Char)) : filledAll ss values ≠ [] := by
  cases ss with
  | nil => exact absurd rfl h
  | cons s ss => exact List.cons_ne_nil _ _

/-- Filling in takes segments joined with slashes to their pieces joined with slashes. -/
theorem fillFrom_join : ∀ {ss : List Segment}, (∀ s ∈ ss, s.Clean) → ∀ values : List (List Char),
    fillFrom false (joinWith ['/'] (ss.map (·.text.toList))) values = joinWith ['/'] (filledAll ss values)
  | [], _, _ => rfl
  | [s], h, values => by
    have hs := Segment.fillFrom_text (h s List.mem_cons_self) [] values
    rw [List.append_nil] at hs
    exact hs.trans (List.append_nil _)
  | s :: s' :: ss, h, values => by
    obtain ⟨hs, hrest⟩ := List.forall_mem_cons.1 h
    have hslash : ∀ (rest : List Char) (values : List (List Char)),
        fillFrom false ('/' :: rest) values = '/' :: fillFrom false rest values := fun _ _ => rfl
    rw [List.map_cons, joinWith_cons _ _ (by simp), filledAll, joinWith_cons _ _ (filledAll_ne_nil (by simp) _),
      List.append_assoc, Segment.fillFrom_text hs, List.singleton_append, hslash, fillFrom_join hrest]
    simp only [List.append_assoc, List.singleton_append]

theorem not_mem_filledAll {c : Char} : ∀ {ss : List Segment} {values : List (List Char)},
    (∀ s ∈ ss, c ∉ s.text.toList) → (∀ v ∈ values, c ∉ v) → ∀ p ∈ filledAll ss values, c ∉ p
  | [], _, _, _, _, h => by cases h
  | s :: ss, values, hss, hvalues, p, hp => by
    obtain ⟨hs, hrest⟩ := List.forall_mem_cons.1 hss
    rcases List.mem_cons.1 hp with rfl | hp
    · refine Segment.not_mem_filled hs ?_
      cases values with
      | nil => exact List.not_mem_nil
      | cons v values => exact hvalues v List.mem_cons_self
    · refine not_mem_filledAll hrest (fun v hv => hvalues v ?_) p hp
      cases s with
      | literal t => exact hv
      | param name => exact List.mem_of_mem_tail hv
      | mixed lead name trail => exact List.mem_of_mem_tail hv

/-! ## Templates that have been read -/

namespace Template

/-- What is known of a template that has been read. -/
structure Read (t : Template) : Prop where
  raw : t.raw.toList = '/' :: joinWith ['/'] (t.segments.map (·.text.toList))
  nonempty : t.segments ≠ []
  clean : ∀ s ∈ t.segments, s.Clean
  noSlash : ∀ s ∈ t.segments, '/' ∉ s.text.toList

theorem parseSegments_ok {raw : String} : ∀ {parts : List (List Char)} {ss : List Segment},
    parseSegments raw parts = .ok ss → ss.map (·.text.toList) = parts ∧ ∀ s ∈ ss, s.Clean
  | [], ss, h => by
    cases h
    exact ⟨rfl, fun _ h => by cases h⟩
  | part :: parts, ss, h => by
    unfold parseSegments at h
    cases hs : Segment.parse part with
    | error fault => rw [hs] at h; cases h
    | ok s =>
      rw [hs] at h
      cases hrest : parseSegments raw parts with
      | error e => rw [hrest] at h; cases h
      | ok rest =>
        rw [hrest] at h
        cases h
        obtain ⟨htext, hclean⟩ := Segment.parse_ok hs
        obtain ⟨htexts, hcleans⟩ := parseSegments_ok hrest
        exact ⟨by rw [List.map_cons, htext, htexts], List.forall_mem_cons.2 ⟨hclean, hcleans⟩⟩

/-- **A template that has been read keeps its text**: its segments make it up again. -/
theorem parse_read {raw : String} {t : Template} (h : parse raw = .ok t) : t.raw = raw ∧ t.Read := by
  unfold parse at h
  split at h
  · rename_i rest hraw
    cases hss : parseSegments raw (pieces '/' rest) with
    | error e => rw [hss] at h; cases h
    | ok ss =>
      rw [hss] at h
      cases h
      obtain ⟨htexts, hclean⟩ := parseSegments_ok hss
      refine ⟨rfl, ⟨?_, ?_, hclean, fun s hs => ?_⟩⟩
      · rw [htexts, joinWith_pieces, hraw]
      · rintro rfl
        exact pieces_ne_nil '/' rest htexts.symm
      · exact not_mem_of_mem_pieces (htexts ▸ List.mem_map_of_mem hs)
  · cases h

theorem toList_fill {t : Template} (h : t.Read) (values : List String) :
    (t.fill values).toList = '/' :: joinWith ['/'] (filledAll t.segments (values.map String.toList)) := by
  rw [fill, String.toList_ofList, h.raw]
  exact congrArg ('/' :: ·) (fillFrom_join h.clean _)

/-! ## Matching -/

theorem fit_literal (text : String) : fit ((Segment.literal text).filled []) (.literal text) = .plain := by
  rw [fit]
  exact if_pos rfl

/-- A piece that a segment stands for binds the text put in, whatever is in it. -/
theorem fit_filled {s : Segment} {name : String} (hs : s.paramName? = some name) {value : List Char}
    (hvalue : value ≠ []) : fit (s.filled value) s = .bound name (String.ofList value) := by
  obtain ⟨c, cs, rfl⟩ := List.exists_cons_of_ne_nil hvalue
  cases s with
  | literal t => cases hs
  | param n =>
    cases hs
    rfl
  | mixed lead n trail =>
    cases hs
    simp only [fit, Segment.filled, List.append_assoc, afterLead?_append, List.cons_append]
    rw [← List.cons_append, beforeTrail?_append]

/-- Segments match the pieces that they stand for. -/
theorem matchFrom_filledAll : ∀ (i : Nat) (ss : List Segment) {values : List String},
    values.length = (ss.filterMap Segment.paramName?).length → (∀ v ∈ values, v ≠ "") →
    matchFrom i ss (filledAll ss (values.map String.toList)) = .matched ((ss.filterMap Segment.paramName?).zip values)
  | _, [], _, _, _ => by simp [filledAll, matchFrom]
  | i, s :: ss, values, hlen, hvalues => by
    rw [filledAll, matchFrom]
    cases hs : s.paramName? with
    | none =>
      cases s with
      | literal t =>
        rw [List.filterMap_cons_none hs] at hlen ⊢
        rw [Segment.left, matchFrom_filledAll (i + 1) ss hlen hvalues]
        exact congrArg (Fit.before i · _) (fit_literal t)
      | param name => cases hs
      | mixed lead name trail => cases hs
    | some name =>
      rw [List.filterMap_cons_some hs] at hlen ⊢
      cases values with
      | nil => cases hlen
      | cons v values =>
        obtain ⟨hv, hrest⟩ := List.forall_mem_cons.1 hvalues
        have hleft : s.left ((v :: values).map String.toList) = values.map String.toList := by
          rw [Segment.left_eq, hs]
          rfl
        have hfit : fit (s.filled v.toList) s = .bound name (String.ofList v.toList) :=
          fit_filled hs fun h => hv (String.toList_eq_nil_iff.1 h)
        rw [hleft, matchFrom_filledAll (i + 1) ss (Nat.succ.inj hlen) hrest, List.map_cons, List.headD_cons, hfit,
          String.ofList_toList]
        rfl

/-- **A template matches the paths made from it** and captures the texts that were put in. -/
theorem matchPath_fill {t : Template} (h : t.Read) {values : List String} (hlen : values.length = t.paramNames.length)
    (hvalues : ∀ v ∈ values, v ≠ "" ∧ '/' ∉ v.toList) :
    t.matchPath (t.fill values) = .matched (t.paramNames.zip values) := by
  have hslash : ∀ p ∈ filledAll t.segments (values.map String.toList), '/' ∉ p := by
    refine not_mem_filledAll h.noSlash fun v hv => ?_
    obtain ⟨v, hmem, rfl⟩ := List.mem_map.1 hv
    exact (hvalues v hmem).2
  have hpieces := pieces_joinWith (filledAll_ne_nil h.nonempty _) hslash
  have hmatch := matchFrom_filledAll 0 t.segments hlen fun v hv => (hvalues v hv).1
  rw [matchPath, toList_fill h]
  rw [← hpieces] at hmatch
  exact hmatch

/-- What a piece of a path binds is the placeholder of its segment. -/
theorem paramName?_of_fit (part : List Char) (s : Segment) :
    match fit part s with
    | .plain => s.paramName? = none
    | .bound name _ => s.paramName? = some name
    | .wrongTrail | .unfit => True := by
  fun_cases fit part s
  all_goals trivial

/-- Segments match pieces exactly if the first piece fits the first segment and the others match the others. -/
theorem matchFrom_cons_iff {i : Nat} {s : Segment} {ss : List Segment} {part : List Char} {parts : List (List Char)}
    {captures : Captures} : matchFrom i (s :: ss) (part :: parts) = .matched captures ↔
      ∃ rest, matchFrom (i + 1) ss parts = .matched rest ∧
        (fit part s = .plain ∧ captures = rest ∨
          ∃ name value, fit part s = .bound name value ∧ captures = (name, value) :: rest) := by
  rw [matchFrom]
  constructor
  · intro h
    cases hfit : fit part s with
    | unfit => rw [hfit] at h; cases h
    | wrongTrail =>
      rw [hfit] at h
      cases hrest : matchFrom (i + 1) ss parts <;> rw [hrest] at h <;> cases h
    | plain =>
      rw [hfit] at h
      cases hrest : matchFrom (i + 1) ss parts with
      | matched rest =>
        rw [hrest] at h
        cases h
        exact ⟨_, rfl, .inl ⟨rfl, rfl⟩⟩
      | mismatch j => rw [hrest] at h; cases h
      | noMatch => rw [hrest] at h; cases h
    | bound name value =>
      rw [hfit] at h
      cases hrest : matchFrom (i + 1) ss parts with
      | matched rest =>
        rw [hrest] at h
        cases h
        exact ⟨rest, rfl, .inr ⟨name, value, rfl, rfl⟩⟩
      | mismatch j => rw [hrest] at h; cases h
      | noMatch => rw [hrest] at h; cases h
  · rintro ⟨rest, hrest, ⟨hfit, rfl⟩ | ⟨name, value, hfit, rfl⟩⟩
    · rw [hfit, hrest]
      rfl
    · rw [hfit, hrest]
      rfl

theorem matchFrom_names : ∀ {i : Nat} {ss : List Segment} {parts : List (List Char)} {captures : Captures},
    matchFrom i ss parts = .matched captures → captures.map (·.1) = ss.filterMap Segment.paramName?
  | _, [], [], _, h => by
    cases h
    rfl
  | _, [], _ :: _, _, h => by cases h
  | _, _ :: _, [], _, h => by cases h
  | i, s :: ss, part :: parts, captures, h => by
    have hname := paramName?_of_fit part s
    obtain ⟨rest, hrest, ⟨hfit, rfl⟩ | ⟨name, value, hfit, rfl⟩⟩ := matchFrom_cons_iff.1 h
    · rw [hfit] at hname
      rw [matchFrom_names hrest, List.filterMap_cons_none hname]
    · rw [hfit] at hname
      rw [List.map_cons, matchFrom_names hrest, List.filterMap_cons_some hname]

/-- **The captured names are the placeholders**, in their order. -/
theorem matchPath_names {t : Template} {path : String} {captures : Captures}
    (h : t.matchPath path = .matched captures) : captures.map (·.1) = t.paramNames := by
  unfold matchPath at h
  split at h
  · exact matchFrom_names h
  · cases h

/-! ## Matching undoes filling in -/

/-- A piece that fits a segment is what the segment stands for, with the text that the piece binds. -/
theorem filled_of_fit (part : List Char) (s : Segment) :
    match fit part s with
    | .plain => ∀ value, s.filled value = part
    | .bound _ value => s.filled value.toList = part ∧ value ≠ ""
    | .wrongTrail | .unfit => True := by
  fun_cases fit part s with
  | case1 text h => exact fun _ => h
  | case4 name h =>
    have hpart : part ≠ [] := by simpa using h
    exact ⟨String.toList_ofList, fun he => hpart (by simpa using congrArg String.toList he)⟩
  | case9 lead name trail rest hrest hlead middle hmiddle htrail =>
    have hpart : part = lead.toList ++ (middle ++ trail.toList) := by
      rw [afterLead?_eq_some_iff.1 hlead, beforeTrail?_eq_some_iff.1 htrail]
    constructor
    · simp [Segment.filled, hpart]
    · intro he
      exact hmiddle (by simpa using congrArg String.toList he)
  | _ => trivial

/-- Pieces that match segments are those that the segments stand for, with the texts that are captured. Every captured
text is a part of some piece and not empty. -/
theorem matchFrom_filled : ∀ {i : Nat} {ss : List Segment} {parts : List (List Char)} {captures : Captures},
    matchFrom i ss parts = .matched captures →
      parts = filledAll ss (captures.map (·.2.toList)) ∧ ∀ c ∈ captures, c.2 ≠ "" ∧ ∃ p ∈ parts, c.2.toList ⊆ p
  | _, [], [], _, h => by
    cases h
    exact ⟨rfl, by simp⟩
  | _, [], _ :: _, _, h => by cases h
  | _, _ :: _, [], _, h => by cases h
  | i, s :: ss, part :: parts, captures, h => by
    have hname := paramName?_of_fit part s
    have hpart := filled_of_fit part s
    obtain ⟨rest, hrest, ⟨hfit, rfl⟩ | ⟨name, value, hfit, rfl⟩⟩ := matchFrom_cons_iff.1 h
    · rw [hfit] at hname hpart
      obtain ⟨hparts, hcaptured⟩ := matchFrom_filled hrest
      constructor
      · rw [filledAll, hpart, Segment.left_eq, hname, hparts]
        rfl
      · intro c hc
        obtain ⟨hc, p, hp, hsub⟩ := hcaptured c hc
        exact ⟨hc, p, List.mem_cons_of_mem part hp, hsub⟩
    · rw [hfit] at hname hpart
      obtain ⟨hparts, hcaptured⟩ := matchFrom_filled hrest
      obtain ⟨hpart, hvalue⟩ := hpart
      constructor
      · rw [filledAll, List.map_cons, List.headD_cons, hpart, Segment.left_eq, hname, hparts]
        rfl
      · intro c hc
        rcases List.mem_cons.1 hc with rfl | hc
        · refine ⟨hvalue, part, List.mem_cons_self, ?_⟩
          rw [← hpart]
          exact Segment.subset_filled hname _
        · obtain ⟨hc, p, hp, hsub⟩ := hcaptured c hc
          exact ⟨hc, p, List.mem_cons_of_mem part hp, hsub⟩

/-- A path that matches is made from the template with the captured texts, which are not empty and have no slash. -/
theorem fill_of_matchPath {t : Template} (h : t.Read) {path : String} {captures : Captures}
    (hmatch : t.matchPath path = .matched captures) :
    path = t.fill (captures.map (·.2)) ∧ ∀ c ∈ captures, c.2 ≠ "" ∧ '/' ∉ c.2.toList := by
  unfold matchPath at hmatch
  split at hmatch
  · rename_i rest hpath
    obtain ⟨hparts, hcaptured⟩ := matchFrom_filled hmatch
    constructor
    · apply String.toList_inj.1
      rw [hpath, toList_fill h, List.map_map]
      have hrest := joinWith_pieces '/' rest
      rw [hparts] at hrest
      exact congrArg ('/' :: ·) hrest.symm
    · intro c hc
      obtain ⟨hc, p, hp, hsub⟩ := hcaptured c hc
      exact ⟨hc, fun hslash => not_mem_of_mem_pieces hp (hsub hslash)⟩
  · cases hmatch

/-- **Matching and filling in are inverse.** The path that is made from a template with some texts is a slash and then
the segments of the template, joined with slashes, each with the text for its placeholder. A template that has been read
matches a path with some captures exactly if the path is made from it with the captured texts, the captured names are
its placeholders, and the texts are not empty and have no slash; and whatever such texts a path is made with are
captured from it again. -/
theorem matchPath_matched_iff {raw : String} {t : Template} (h : parse raw = .ok t) :
    (∀ values : List String, (t.fill values).toList =
      '/' :: joinWith ['/'] (filledAll t.segments (values.map String.toList))) ∧
    (∀ path captures, t.matchPath path = .matched captures ↔ path = t.fill (captures.map (·.2)) ∧
      captures.map (·.1) = t.paramNames ∧ ∀ c ∈ captures, c.2 ≠ "" ∧ '/' ∉ c.2.toList) ∧
    ∀ values : List String, values.length = t.paramNames.length → (∀ v ∈ values, v ≠ "" ∧ '/' ∉ v.toList) →
      t.matchPath (t.fill values) = .matched (t.paramNames.zip values) := by
  have hread : t.Read := (parse_read h).2
  refine ⟨toList_fill hread, fun path captures => ⟨fun hmatch => ?_, ?_⟩, fun values => matchPath_fill hread⟩
  · obtain ⟨hpath, hcaptured⟩ := fill_of_matchPath hread hmatch
    exact ⟨hpath, matchPath_names hmatch, hcaptured⟩
  · rintro ⟨rfl, hnames, hcaptured⟩
    have hlength : (captures.map (·.2)).length = t.paramNames.length := by simp [← hnames]
    have htexts : ∀ v ∈ captures.map (·.2), v ≠ "" ∧ '/' ∉ v.toList := by
      intro v hv
      obtain ⟨c, hc, rfl⟩ := List.mem_map.1 hv
      exact hcaptured c hc
    have hzip : t.paramNames.zip (captures.map (·.2)) = captures := by
      rw [← hnames]
      exact (List.zip_of_prod rfl rfl).symm
    rw [matchPath_fill hread hlength htexts, hzip]

/-- A template whose second placeholder repeats the first and stands between texts that its value may contain. -/
theorem matchPath_matched_iff_leaves : ∃ t, parse "/\x7bnode\x7d/leaf\x7bnode\x7d.json" = .ok t ∧
    t.matchPath "/leaf/leafleaf.json.json" = .matched [("node", "leaf"), ("node", "leaf.json")] ∧
    "/leaf/leafleaf.json.json" = t.fill ["leaf", "leaf.json"] ∧ t.paramNames = ["node", "node"] := by
  have hparse : (parse "/\x7bnode\x7d/leaf\x7bnode\x7d.json").toOption.map
      (fun t => (t.paramNames, t.matchPath "/leaf/leafleaf.json.json")) =
        some (["node", "node"], .matched [("node", "leaf"), ("node", "leaf.json")]) := by decide +kernel
  cases h : parse "/\x7bnode\x7d/leaf\x7bnode\x7d.json" with
  | error e => rw [h] at hparse; cases hparse
  | ok t =>
    rw [h] at hparse
    obtain ⟨hnames, hmatch⟩ := Prod.mk.inj (Option.some.inj hparse)
    have hfill := (((matchPath_matched_iff h).2.1 _ _).1 hmatch).1
    exact ⟨t, rfl, hmatch, hfill, hnames⟩

end Template

end ApiForge.Route

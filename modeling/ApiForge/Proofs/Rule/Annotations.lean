import ApiForge.Emission.Record
import ApiForge.Proofs.Naming.Fresh
import ApiForge.Proofs.Rule.Said
import ApiForge.Proofs.Schema.Compiled

/-!
# Attributes lose no rule

Writing rules as an attribute names constants on the way, so what an attribute says is known once they all have been
named.

* `Rule.Ledger`: which sources are held in constants; `Ledger.Records constant`: naming a constant holds its source.
* `Ledger.Conveys m as`: attributes convey what is said. It goes through sequences (`Conveys.append`) and one level
  deeper (`Conveys.dive`).
* `Rule.Ordered`: shapes, limits and then contents, at every depth. `Ordered.conveys`: such rules convey what they say.
* `Node.Ruled.ordered`, `Node.Compiled.annotate_lossless`: the rules of a node are such rules, and are read back.
-/

namespace ApiForge

namespace Rule

open Code Schema

/-! ## Contents -/

section Contents

variable {σ : Type} {constant : TextPattern → Nat → StateM σ String}

/-- The sources that are held in constants, as a state tells them. -/
structure Ledger (σ : Type) where
  /-- The states that are gone through. -/
  valid : σ → Prop
  source : σ → String → Option String

/-- What a state tells is known. -/
def Ledger.Covers (L : Ledger σ) (known : String → Option String) (s : σ) : Prop :=
  ∀ c text, L.source s c = some text → known c = some text

/-- Naming a constant holds the source of its pattern under the name, and keeps what has been held. -/
structure Ledger.Records (L : Ledger σ) (constant : TextPattern → Nat → StateM σ String) : Prop where
  valid : ∀ p depth s, L.valid s → L.valid ((constant p depth).run s).2
  held : ∀ p depth s, L.valid s → L.source ((constant p depth).run s).2 ((constant p depth).run s).1 = some p.source
  kept : ∀ p depth s, L.valid s → L.Covers (L.source ((constant p depth).run s).2) s

/-- Attributes convey what is said: it is read back from them, also when further constants have been named. -/
structure Ledger.Conveys (L : Ledger σ) (m : StateM σ (List Meta)) (as : List Said) : Prop where
  valid : ∀ s, L.valid s → L.valid (m.run s).2
  kept : ∀ s known, L.valid s → L.Covers known (m.run s).2 → L.Covers known s
  read : ∀ s known, L.valid s → L.Covers known (m.run s).2 →
    List.Forall₂ Said.Agrees (Said.ofMetas known (m.run s).1) as

variable {L : Ledger σ} {m n : StateM σ (List Meta)} {as bs : List Said} {ms : List Meta} {c : Constraints}
  {rules before after : List Rule}

theorem Ledger.Conveys.pure (h : ∀ known, List.Forall₂ Said.Agrees (Said.ofMetas known ms) as) :
    L.Conveys (pure ms) as where
  valid _ hs := hs
  kept _ _ _ h := h
  read _ known _ _ := h known

theorem Ledger.Conveys.append (hm : L.Conveys m as) (hn : L.Conveys n bs) :
    L.Conveys (do return (← m) ++ (← n)) (as ++ bs) where
  valid s hs := hn.valid _ (hm.valid s hs)
  kept s known hs h := hm.kept s known hs (hn.kept _ known (hm.valid s hs) h)
  read s known hs h := by
    have hleft := hm.read s known hs (hn.kept _ known (hm.valid s hs) h)
    have hright := hn.read _ known (hm.valid s hs) h
    have hrun : (StateT.run (do return (← m) ++ (← n)) s : List Meta × σ).1 =
        (m.run s).1 ++ (n.run (m.run s).2).1 := rfl
    rw [hrun, ofMetas_append]
    exact List.rel_append hleft hright

theorem Ledger.Records.conveys (h : L.Records constant) (p : TextPattern) (depth : Nat) :
    L.Conveys (do return [Meta.list "regex" [.nameValue "path" (.path (← constant p depth))]]) [.pattern p.source] where
  valid := h.valid p depth
  kept s known hs hcovers c text hc := hcovers c text (h.kept p depth s hs c text hc)
  read s known hs hcovers := by
    have hread : Said.ofMeta known (.list "regex" [.nameValue "path" (.path ((constant p depth).run s).1)]) =
        ((known ((constant p depth).run s).1).map Said.pattern).toList := rfl
    rw [hcovers _ _ (h.held p depth s hs)] at hread
    have hrun : (StateT.run (do return [Meta.list "regex" [.nameValue "path" (.path (← constant p depth))]]) s).1 =
        [Meta.list "regex" [.nameValue "path" (.path ((constant p depth).run s).1)]] := rfl
    rw [hrun, Said.ofMetas, hread]
    exact Said.agrees_refl _

/-- Rules that are not on contents are passed over. -/
theorem contents_cons {r : Rule} (h : ¬IsContent r) (depth : Nat) (rules : List Rule) :
    annotate.contents constant depth (r :: rules) = annotate.contents constant depth rules := by
  cases r with
  | oneOf | pattern | fields | elements => exact absurd trivial h
  | _ => simp [annotate.contents]

theorem sizeMetas_of_bare (h : areBare rules = true) : sizeMetas false rules = [] := by
  have hkind : ∀ r ∈ rules, isBare r = true := by
    induction rules with
    | nil => exact fun _ h => absurd h List.not_mem_nil
    | cons r rules ih =>
      rw [areBare, Bool.and_eq_true] at h
      exact List.forall_mem_cons.2 ⟨h.1, ih h.2⟩
  have hnone {α : Type} {f : Rule → Option α} (hf : ∀ r, isBare r = true → f r = none) : last? rules f = none :=
    last?_eq_none fun r hr => hf r (hkind r hr)
  unfold sizeMetas minimum? maximum?
  dsimp only
  rw [hnone, hnone, hnone, hnone, hnone, hnone]
  · rfl
  all_goals
    intro r hr
    cases r <;> first | rfl | cases hr

/-- Nothing is said of rules that ask for nothing but shapes. -/
theorem contents_of_bare (depth : Nat) : ∀ {rules : List Rule}, areBare rules = true →
    annotate.contents constant depth rules = pure []
  | [], _ => by rw [annotate.contents]
  | .type _ :: rules, h => by
    rw [areBare, Bool.and_eq_true] at h
    rw [contents_cons id, contents_of_bare depth h.2]
  | .elements inner _ :: rules, h => by
    rw [areBare, isBare, Bool.and_eq_true] at h
    rw [annotate.contents, contents_of_bare depth h.2, contents_of_bare (depth + 1) h.1, sizeMetas_of_bare h.1]
    rfl

theorem contents_append (depth : Nat) : ∀ {before : List Rule}, (∀ r ∈ before, ¬IsContent r) → 
    annotate.contents constant depth (before ++ rules) = annotate.contents constant depth rules
  | [], _ => rfl
  | r :: before, h => by
    obtain ⟨hr, hbefore⟩ := List.forall_mem_cons.1 h
    rw [List.cons_append, contents_cons hr, contents_append depth hbefore]

theorem areBare_of_saidAll : ∀ {rules : List Rule}, (∀ r ∈ rules, isRequired r = false) → saidAll false rules = [] →
    areBare rules = true
  | [], _, _ => rfl
  | r :: rules, h, hnil => by
    obtain ⟨hr, hrules⟩ := List.forall_mem_cons.1 h
    rw [saidAll, List.append_eq_nil_iff] at hnil
    rw [areBare, areBare_of_saidAll hrules hnil.2, Bool.and_true]
    cases r with
    | required => cases hr
    | type => rfl
    | elements inner nullable =>
      rw [isBare]
      by_contra hbare
      rw [said, if_neg hbare] at hnil
      cases hnil.1
    | _ => cases hnil.1

/-- What is said of items is conveyed one level deeper, and left out only where nothing is said. -/
theorem Ledger.Conveys.dive {inner : List Rule} (h : L.Conveys m (saidAll false inner))
    (hrequired : ∀ r ∈ inner, isRequired r = false) (hbare : areBare inner = true → ∀ s, (m.run s).1 = [])
    (optional nullable : Bool) :
    L.Conveys (do return listUnlessEmpty "dive" (← m)) (said optional (.elements inner nullable)) where
  valid := h.valid
  kept := h.kept
  read s known hs hcovers := by
    have hrun : (StateT.run (do return listUnlessEmpty "dive" (← m)) s : List Meta × σ).1 =
        listUnlessEmpty "dive" (m.run s).1 := rfl
    have hread := h.read s known hs hcovers
    rw [hrun, said]
    split
    · rename_i hinner
      rw [hbare hinner s]
      exact .nil
    · rename_i hinner
      generalize (m.run s).1 = nested at hread
      cases nested with
      | nil => exact absurd (areBare_of_saidAll hrequired (List.forall₂_nil_left_iff.1 hread)) hinner
      | cons m ms => exact .cons (.items hread) .nil

/-- The rules on one content convey what they say, if the rules for items do. -/
theorem Ledger.Records.conveys_contents (hconstant : L.Records constant) (optional : Bool) (depth : Nat) :
    ∀ {rules : List Rule}, (∀ r ∈ rules, IsContent r) →
      (∀ inner nullable, .elements inner nullable ∈ rules → (∀ r ∈ inner, isRequired r = false) ∧
        ∀ depth, L.Conveys (annotate constant false depth inner) (saidAll false inner)) →
      L.Conveys (annotate.contents constant depth rules) (saidAll optional rules)
  | [], _, _ => by
    rw [annotate.contents]
    exact .pure fun _ => .nil
  | r :: rules, hcontents, helements => by
    obtain ⟨hr, hrules⟩ := List.forall_mem_cons.1 hcontents
    have ih := hconstant.conveys_contents optional depth hrules fun inner nullable h =>
      helements inner nullable (List.mem_cons_of_mem _ h)
    rw [saidAll]
    cases r with
    | oneOf members =>
      rw [annotate.contents]
      have hmembers : L.Conveys (pure [Meta.list "one_of" (members.map fun v => .value (memberLiteral v))])
          [.oneOf members] := .pure fun known => .cons (.oneOf (sameMembers members)) .nil
      exact hmembers.append ih
    | pattern p =>
      rw [annotate.contents]
      exact .append (hconstant.conveys p depth) ih
    | fields set =>
      rw [annotate.contents]
      have hrecord : L.Conveys (pure [Meta.path "dive"]) [.record] := .pure fun known => .cons (.same _) .nil
      exact hrecord.append ih
    | elements inner nullable =>
      rw [annotate.contents]
      obtain ⟨hrequired, hinner⟩ := helements inner nullable List.mem_cons_self
      have hbare (h : areBare inner = true) (s : σ) :
          ((annotate constant false (depth + 1) inner).run s).1 = [] := by
        rw [annotate, contents_of_bare (depth + 1) h, sizeMetas_of_bare h]
        rfl
      exact .append ((hinner (depth + 1)).dive hrequired hbare optional nullable) ih
    | _ => exact hr.elim

/-- Rules that stand in order, heads first and then limits, convey what they say. -/
theorem Ledger.Records.conveys_ordered (hconstant : L.Records constant) (optional : Bool) (depth : Nat)
    (hbefore : ∀ r ∈ before, IsHead r) (hafter : ∀ r ∈ after, IsContent r)
    (helements : ∀ inner nullable, .elements inner nullable ∈ after → (∀ r ∈ inner, isRequired r = false) ∧
      ∀ depth, L.Conveys (annotate constant false depth inner) (saidAll false inner)) :
    L.Conveys (annotate constant optional depth (before ++ sizeRules c ++ after))
      (saidAll optional (before ++ sizeRules c ++ after)) := by
  have hskip : ∀ r ∈ before ++ sizeRules c, ¬IsContent r := by
    rintro r hr hcontent
    rcases List.mem_append.1 hr with hr | hr
    · have hhead := hbefore r hr
      cases r with
      | required | type => exact hcontent
      | _ => exact hhead
    · exact (of_mem_sizeRules hr).2 hcontent
  rw [annotate, contents_append depth hskip, saidAll_append]
  exact .append (.pure fun known => ofMetas_sizeMetas optional hbefore hafter)
    (hconstant.conveys_contents optional depth hafter helements)

/-- Rules stand in order: shapes, limits and then contents; of the contents, those on items stand in order again. -/
inductive Ordered : List Rule → Prop where
  | level {before after : List Rule} {c : Constraints} : (∀ r ∈ before, ∃ shape, r = .type shape) →
      (∀ r ∈ after, IsContent r) → (∀ inner nullable, .elements inner nullable ∈ after → Ordered inner) →
      Ordered (before ++ sizeRules c ++ after)

theorem Ordered.not_required (h : Ordered rules) : ∀ r ∈ rules, isRequired r = false := by
  obtain ⟨hbefore, hafter, -⟩ := h
  intro r hr
  rw [List.mem_append, List.mem_append] at hr
  rw [← Bool.not_eq_true]
  intro hrequired
  rcases hr with (hr | hr) | hr
  · obtain ⟨shape, rfl⟩ := hbefore r hr
    cases hrequired
  · exact (of_mem_sizeRules hr).1 (isHead_of_isRequired hrequired)
  · have hcontent := hafter r hr
    cases r with
    | required => exact hcontent
    | _ => cases hrequired

/-- **Rules that stand in order convey what they say**, at every depth. -/
theorem Ordered.conveys (h : Ordered rules) (hconstant : L.Records constant) (required optional : Bool) (depth : Nat) :
    L.Conveys (annotate constant optional depth (withPresence required rules))
      (saidAll optional (withPresence required rules)) := by
  induction h generalizing required optional depth with
  | @level before after c hbefore hafter helements ih =>
    have hheads : ∀ r ∈ withPresence required before, IsHead r := by
      intro r hr
      have hcases : r = .required ∨ r ∈ before := by
        cases required with
        | false => exact .inr hr
        | true => exact List.mem_cons.1 hr
      rcases hcases with rfl | hr
      · trivial
      · obtain ⟨shape, rfl⟩ := hbefore r hr
        trivial
    have hpresence : withPresence required (before ++ sizeRules c ++ after) =
        withPresence required before ++ sizeRules c ++ after := by
      cases required <;> rfl
    rw [hpresence]
    exact hconstant.conveys_ordered optional depth hheads hafter fun inner nullable h =>
      ⟨(helements inner nullable h).not_required, ih inner nullable h false false⟩

end Contents

end Rule

namespace Emission

open Code

/-- The constants of patterns that have been collected. -/
def constantLedger : Rule.Ledger (Naming.Allocator × List Constant) where
  valid s := ∀ k ∈ s.2, k.name ∈ s.1.taken
  source s c := (s.2.find? (·.name == c)).bind fun k =>
    match k.value with
    | .lit (.str text) => some text
    | _ => none

/-- Constants of patterns are named so that the source of a pattern is found under its name. -/
theorem patternConstant_records (owner field : String) : constantLedger.Records (patternConstant owner field) where
  valid p depth s h k hk := by
    rcases List.mem_append.1 hk with hk | hk
    · exact List.mem_cons_of_mem _ (h k hk)
    · rw [List.mem_singleton.1 hk]
      exact List.mem_cons_self
  held p depth s h := by
    -- the name is new, so none of the constants before is found under it
    have hnew : ∀ k ∈ s.2, ¬(k.name == ((patternConstant owner field p depth).run s).1) = true := by
      intro k hk hname
      exact s.1.fresh_not_mem _ (beq_iff_eq.1 hname ▸ h k hk)
    have hfind : ((patternConstant owner field p depth).run s).2.2.find?
        (·.name == ((patternConstant owner field p depth).run s).1) =
          some ⟨((patternConstant owner field p depth).run s).1, [], textRef, .str p.source⟩ := by
      change (s.2 ++ [_]).find? _ = _
      rw [List.find?_append, List.find?_eq_none.2 hnew, Option.none_or]
      exact List.find?_cons_of_pos (beq_self_eq_true _)
    rw [constantLedger]
    dsimp only
    rw [hfind]
    rfl
  kept p depth s h c text hc := by
    obtain ⟨k, hk, htext⟩ := Option.bind_eq_some_iff.1 hc
    refine Option.bind_eq_some_iff.2 ⟨k, ?_, htext⟩
    change (s.2 ++ [_]).find? _ = _
    rw [List.find?_append, hk, Option.some_or]

end Emission

namespace Schema

open Rule

section Nodes

variable {σ : Type} {L : Ledger σ} {constant : TextPattern → Nat → StateM σ String} {n : Node} {rules : List Rule}

/-- The declared conditions on members and patterns. -/
def contentRules (c : Constraints) : List Rule :=
  (if c.oneOf.isEmpty then [] else [Rule.oneOf c.oneOf]) ++ (c.pattern.map Rule.pattern).toList

theorem leafRules_eq (c : Constraints) : leafRules c = sizeRules c ++ contentRules c := by
  rw [contentRules, ← List.append_assoc]
  rfl

theorem of_mem_contentRules {c : Constraints} {r : Rule} (h : r ∈ contentRules c) :
    IsContent r ∧ ∀ inner nullable, r ≠ .elements inner nullable := by
  rcases List.mem_append.1 h with h | h
  · split at h
    · cases h
    · rw [List.mem_singleton.1 h]
      exact ⟨trivial, nofun⟩
  · obtain ⟨p, -, rfl⟩ := Option.map_eq_some_iff.1 (Option.mem_toList.1 h)
    exact ⟨trivial, nofun⟩

/-- Declared conditions between a shape and further contents stand in order. -/
theorem ordered_leafRules {before extra : List Rule} (c : Constraints)
    (hbefore : ∀ r ∈ before, ∃ shape, r = .type shape) (hextra : ∀ r ∈ extra, IsContent r)
    (helements : ∀ inner nullable, .elements inner nullable ∈ extra → Ordered inner) :
    Ordered (before ++ leafRules c ++ extra) := by
  rw [leafRules_eq, ← List.append_assoc, List.append_assoc]
  refine .level hbefore (fun r hr => ?_) fun inner nullable hr => ?_
  · rcases List.mem_append.1 hr with hr | hr
    · exact (of_mem_contentRules hr).1
    · exact hextra r hr
  · rcases List.mem_append.1 hr with hr | hr
    · exact absurd rfl ((of_mem_contentRules hr).2 inner nullable)
    · exact helements inner nullable hr

/-- **The rules that a node asks for stand in order.** -/
theorem Node.Ruled.ordered (h : n.Ruled rules) : Ordered rules := by
  have hshape (shape : Shape) : ∀ r ∈ [Rule.type shape], ∃ shape, r = .type shape := fun r hr =>
    ⟨shape, List.mem_singleton.1 hr⟩
  induction h with
  | reference _ _ ih => exact ih
  | @scalar n kind =>
    rw [← List.append_nil (_ ++ leafRules _)]
    refine ordered_leafRules _ (fun r hr => ?_) (fun _ h => absurd h List.not_mem_nil) fun _ _ h =>
      absurd h List.not_mem_nil
    obtain ⟨shape, -, rfl⟩ := Option.map_eq_some_iff.1 (Option.mem_toList.1 hr)
    exact ⟨shape, rfl⟩
  | @enumeration n members =>
    refine ordered_leafRules _ (hshape .string) (fun r hr => ?_) fun inner nullable hr => ?_
    · rw [List.mem_singleton.1 hr]
      trivial
    · cases List.mem_singleton.1 hr
  | object set =>
    have hcontent : ∀ r ∈ [Rule.fields set], IsContent r := fun r hr => by
      rw [List.mem_singleton.1 hr]
      trivial
    exact ordered_leafRules {} (hshape .object) hcontent fun inner nullable hr => by cases List.mem_singleton.1 hr
  | @array n element inner _ _ ih =>
    have hitems : ∀ r ∈ itemRules inner element.nullable, r = .elements inner element.nullable := by
      intro r hr
      unfold itemRules at hr
      split at hr
      · cases hr
      · exact List.mem_singleton.1 hr
    refine ordered_leafRules _ (hshape .array) (fun r hr => ?_) fun inner' nullable hr => ?_
    · rw [hitems r hr]
      trivial
    · cases hitems _ hr
      exact ih

/-- **Attributes lose no rule.** Take the rules that are compiled for a node, with or without the rule for presence, and
write them as an attribute, where naming a constant holds the source of its pattern. Reading the attribute gives back
what the rules say, in their order and each at its depth. -/
theorem Node.Compiled.annotate_lossless (h : n.Compiled rules) (hconstant : L.Records constant)
    (required optional : Bool) (depth : Nat) {s : σ} (hs : L.valid s) :
    List.Forall₂ Said.Agrees
      (Said.ofMetas (L.source ((annotate constant optional depth (withPresence required rules)).run s).2)
        ((annotate constant optional depth (withPresence required rules)).run s).1)
      (saidAll optional (withPresence required rules)) :=
  (h.ruled.ordered.conveys hconstant required optional depth).read s _ hs fun _ _ h => h

end Nodes

/-- A list of at least one text of at least two characters, each from the start of a line. -/
def tagList : Node :=
  let tag : Constraints := { minLength := some 2, pattern := some ⟨"^", .assert .textStart⟩ }
  let element : Node := ⟨"tag", .scalar .string, false, false, none, tag, none⟩
  ⟨"tags", .array element, false, false, none, { minItems := some 1 }, none⟩

theorem Node.Compiled.annotate_tagList :
    List.Forall₂ Said.Agrees
      (Said.ofMetas (Emission.constantLedger.source ((annotate (Emission.patternConstant "Post" "tags") true 0
          (withPresence true (RuleCache.valueRules tagList {}).1)).run ({}, [])).2)
        ((annotate (Emission.patternConstant "Post" "tags") true 0
          (withPresence true (RuleCache.valueRules tagList {}).1)).run ({}, [])).1)
      [.required, .minItems 1, .items [.minLength 2, .pattern "^"]] :=
  Node.Compiled.annotate_lossless (n := tagList) .alone (Emission.patternConstant_records "Post" "tags") true true 0
    fun _ h => absurd h List.not_mem_nil

end Schema

end ApiForge

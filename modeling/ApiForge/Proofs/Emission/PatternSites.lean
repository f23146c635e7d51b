import ApiForge.Proofs.Emission.Sources
import ApiForge.Proofs.Naming.Fresh
import ApiForge.Proofs.Naming.Words

/-!
# Where patterns occur

A pattern occurs in the rules of a field, some arrays deep, and again in the attribute that the rules are written as.
There the name of a constant stands for it.

* `PatternSite`: an occurrence. In rules its text is the source of the pattern, in attributes the name of the constant.
* `Rule.sitesAll`, `Meta.sitesAll`: the occurrences in rules and in attributes, in order.
* `Label`: a constant with the occurrence it is named for.
* `Labels names names' us rs ls`: between two allocators the names of the labels `ls` have been given out; the
  occurrences `us` name the constants, and the occurrences `rs` are what the constants are for.
* `annotate_labels`: writing rules as an attribute labels all patterns in them.
* `Source.sites`: the occurrences in the rules of what a type is declared for.
-/

namespace ApiForge

open Code Naming

/-- An occurrence of a pattern in what is said about a place, so many arrays deep. -/
structure PatternSite where
  place : String
  depth : Nat
  text : String
  deriving DecidableEq

/-! ## In rules -/

namespace Rule

mutual

/-- The occurrences of patterns in a rule, with their sources. The rules of the fields of an object are not its own. -/
def sites (place : String) (depth : Nat) : Rule → List PatternSite
  | pattern p => [⟨place, depth, p.source⟩]
  | elements inner _ => sitesAll place (depth + 1) inner
  | _ => []

/-- The occurrences of patterns in a list of rules. -/
def sitesAll (place : String) (depth : Nat) : List Rule → List PatternSite
  | [] => []
  | r :: rules => sites place depth r ++ sitesAll place depth rules

end

end Rule

/-! ## In attributes -/

namespace Code

/-- The path in an attribute for a pattern. -/
def regexPath? : String → List Meta → Option String
  | "regex", [.nameValue "path" (.path name)] => some name
  | _, _ => none

mutual

/-- The occurrences of patterns in an attribute, with the names of their constants. A `dive` goes one array deeper. -/
def Meta.sites (place : String) (depth : Nat) : Meta → List PatternSite
  | .list name items => (regexPath? name items).toList.map (⟨place, depth, ·⟩) ++
      Meta.sitesAll place (if name = "dive" then depth + 1 else depth) items
  | _ => []

/-- The occurrences of patterns in a list of attributes. -/
def Meta.sitesAll (place : String) (depth : Nat) : List Meta → List PatternSite
  | [] => []
  | m :: ms => Meta.sites place depth m ++ Meta.sitesAll place depth ms

end

/-- The occurrences of patterns in the attributes of a field. -/
def Field.sites (f : Field) : List PatternSite := Meta.sitesAll f.name 0 f.attrs

/-- The attributes in a declaration of a type, with the names of what they stand on. -/
def TypeDecl.attributes (t : TypeDecl) : List (String × List Meta) :=
  (t.name, t.attrs) :: match t.shape with
    | .record fields => fields.map fun f => (f.name, f.attrs)
    | .enumeration variants => variants.map fun v => (v.name, v.attrs)
    | .alias _ => []

/-- The occurrences of patterns in a declaration of a type. -/
def TypeDecl.sites (t : TypeDecl) : List PatternSite := t.attributes.flatMap fun a => Meta.sitesAll a.1 0 a.2

/-- The occurrences of patterns in a declaration; only types have attributes. -/
def Declaration.sites : Declaration → List PatternSite
  | .type t => t.sites
  | .func _ | .impl _ | .const _ => []

/-- The occurrences of patterns in a file, in all of its attributes. -/
def File.sites (f : File) : List PatternSite := f.declarations.flatMap Declaration.sites

section Sites

variable {place : String} {depth : Nat}

theorem Meta.sitesAll_append : ∀ (ms ms' : List Meta),
    sitesAll place depth (ms ++ ms') = sitesAll place depth ms ++ sitesAll place depth ms'
  | [], _ => rfl
  | m :: ms, ms' => by
    rw [List.cons_append, sitesAll, sitesAll, sitesAll_append ms ms', List.append_assoc]

theorem Meta.sitesAll_eq_nil : ∀ {ms : List Meta}, (∀ m ∈ ms, m.sites place depth = []) → sitesAll place depth ms = []
  | [], _ => rfl
  | m :: ms, h => by
    obtain ⟨hm, hms⟩ := List.forall_mem_cons.1 h
    rw [sitesAll, hm, sitesAll_eq_nil hms]
    rfl

theorem regexPath?_eq_none {name : String} (h : name ≠ "regex") (items : List Meta) : regexPath? name items = none := by
  unfold regexPath?
  split
  · exact absurd rfl h
  · rfl

/-- A list that is not for a pattern, with items in which there is none. -/
theorem Meta.sites_list {name : String} (hname : name ≠ "regex") {items : List Meta}
    (h : ∀ depth, ∀ m ∈ items, m.sites place depth = []) : (Meta.list name items).sites place depth = [] := by
  rw [sites, regexPath?_eq_none hname, sitesAll_eq_nil (h _)]
  rfl

@[simp] theorem Meta.sites_path (name : String) : (path name).sites place depth = [] := by
  rw [sites]
  nofun

@[simp] theorem Meta.sites_value (value : Expression) : (Meta.value value).sites place depth = [] := by
  rw [sites]
  nofun

@[simp] theorem Meta.sites_nameValue (name : String) (value : Expression) :
    (nameValue name value).sites place depth = [] := by
  rw [sites]
  nofun

@[simp] theorem Meta.sites_derive (traits : List String) : (derive traits).sites place depth = [] :=
  sites_list (by decide) fun _ m hm => by
    obtain ⟨t, -, rfl⟩ := List.mem_map.1 hm
    exact sites_path t

@[simp] theorem Meta.sites_rename (wire : String) : (rename wire).sites place depth = [] :=
  sites_list (by decide) fun _ m hm => by rw [List.mem_singleton.1 hm, sites_nameValue]

end Sites

end Code

/-! ## Writing rules as attributes -/

section Annotate

variable {place : String} {depth : Nat}

namespace Rule

theorem sitesAll_append : ∀ (rules rules' : List Rule),
    sitesAll place depth (rules ++ rules') = sitesAll place depth rules ++ sitesAll place depth rules'
  | [], _ => rfl
  | r :: rules, rules' => by
    rw [List.cons_append, sitesAll, sitesAll, sitesAll_append rules rules', List.append_assoc]

/-- Conditions on presence, length, range and number of items name no constant. -/
theorem sites_sizeMetas (optional : Bool) (rules : List Rule) :
    Meta.sitesAll place depth (sizeMetas optional rules) = [] := by
  have hvalue (depth : Nat) : ∀ m, (∃ name value, m = Meta.nameValue name value) → m.sites place depth = [] := by
    rintro m ⟨name, value, rfl⟩
    exact Meta.sites_nameValue name value
  have hsides (low high : Option Expression) : ∀ m ∈ sides low high, ∃ name value, m = Meta.nameValue name value := by
    intro m hm
    rcases List.mem_append.1 hm with hm | hm
    all_goals
      obtain ⟨value, -, rfl⟩ := Option.map_eq_some_iff.1 (Option.mem_toList.1 hm)
      exact ⟨_, _, rfl⟩
  have hflag (name : String) (value : Bool) :
      ∀ m ∈ flagMeta name value, ∃ name value, m = Meta.nameValue name value := by
    intro m hm
    unfold flagMeta at hm
    split at hm
    · exact ⟨_, _, List.mem_singleton.1 hm⟩
    · cases hm
  have hlist {name : String} (hname : name ≠ "regex") {items : List Meta}
      (hitems : ∀ m ∈ items, ∃ name value, m = Meta.nameValue name value) :
      Meta.sitesAll place depth (listUnlessEmpty name items) = [] := by
    unfold listUnlessEmpty
    split
    · rfl
    · refine Meta.sitesAll_eq_nil fun m hm => ?_
      rw [List.mem_singleton.1 hm]
      exact Meta.sites_list hname fun depth m hm => hvalue depth m (hitems m hm)
  unfold sizeMetas
  dsimp only
  rw [Meta.sitesAll_append, Meta.sitesAll_append, Meta.sitesAll_append, hlist (by decide) (hsides _ _),
    hlist (by decide) (hsides _ _), hlist (by decide) fun m hm => ?range]
  case range =>
    rcases List.mem_append.1 hm with hm | hm
    · rcases List.mem_append.1 hm with hm | hm
      · exact hsides _ _ m hm
      · exact hflag _ _ m hm
    · exact hflag _ _ m hm
  rw [List.append_nil, List.append_nil, List.append_nil]
  refine Meta.sitesAll_eq_nil fun m hm => ?_
  split at hm
  · obtain ⟨r, -, rfl⟩ := List.mem_map.1 hm
    exact Meta.sites_path _
  · cases hm

/-- What is said of items is said one array deeper. -/
theorem sites_dive (items : List Meta) :
    Meta.sitesAll place depth (listUnlessEmpty "dive" items) = Meta.sitesAll place (depth + 1) items := by
  cases items with
  | nil => rfl
  | cons m ms =>
    rw [listUnlessEmpty, List.isEmpty_cons, if_neg Bool.false_ne_true, Meta.sitesAll, Meta.sites,
      regexPath?_eq_none (by decide), if_pos rfl, Meta.sitesAll, List.append_nil]
    rfl

end Rule

end Annotate

namespace Emission

/-! ## Labels -/

/-- A constant that is named for a pattern: where the pattern occurs, the name of the constant and the source. -/
structure Label where
  place : String
  depth : Nat
  name : String
  source : String

namespace Label

/-- The constant. -/
def const (l : Label) : Constant := ⟨l.name, [], textRef, .str l.source⟩

/-- The occurrence in an attribute. -/
def use (l : Label) : PatternSite := ⟨l.place, l.depth, l.name⟩

/-- The occurrence in a rule. -/
def origin (l : Label) : PatternSite := ⟨l.place, l.depth, l.source⟩

end Label

/-- Labels that have been made between two allocators, for the occurrences in attributes and in rules. -/
structure Labels (names names' : Allocator) (us rs : List PatternSite) (ls : List Label) : Prop where
  uses : us = ls.map Label.use
  origins : rs = ls.map Label.origin
  taken : ∀ name, name ∈ names'.taken ↔ name ∈ names.taken ∨ name ∈ ls.map Label.name
  distinct : (ls.map Label.name).Nodup
  fresh : ∀ l ∈ ls, l.name ∉ names.taken ∧ PatternName l.name

section Labels

variable {names names₁ names₂ : Allocator} {us us' rs rs' : List PatternSite} {ls ls' : List Label}

theorem Labels.nil : Labels names names [] [] [] :=
  ⟨rfl, rfl, fun _ => (or_iff_left List.not_mem_nil).symm, List.nodup_nil, by nofun⟩

theorem Labels.append (h : Labels names names₁ us rs ls) (h' : Labels names₁ names₂ us' rs' ls') :
    Labels names names₂ (us ++ us') (rs ++ rs') (ls ++ ls') where
  uses := by rw [h.uses, h'.uses, List.map_append]
  origins := by rw [h.origins, h'.origins, List.map_append]
  taken name := by rw [h'.taken, h.taken, List.map_append, List.mem_append, or_assoc]
  distinct := by
    rw [List.map_append]
    refine List.nodup_append.2 ⟨h.distinct, h'.distinct, fun a ha b hb hab => ?_⟩
    obtain ⟨l, hl, rfl⟩ := List.mem_map.1 hb
    exact (h'.fresh l hl).1 ((h.taken l.name).2 (.inr (hab ▸ ha)))
  fresh l hl := by
    rcases List.mem_append.1 hl with hl | hl
    · exact h.fresh l hl
    · exact ⟨fun ht => (h'.fresh l hl).1 ((h.taken l.name).2 (.inl ht)), (h'.fresh l hl).2⟩

end Labels

section Annotate

variable (owner field place : String)

theorem patternName_wanted (depth : Nat) :
    PatternName (screaming owner ++ "_" ++ screaming field ++ String.join (List.replicate depth "_ITEMS") ++
      "_PATTERN") := by
  refine ⟨shouting_patternName owner field depth, ?_⟩
  rw [String.toList_append]
  exact (List.suffix_append _ _).isInfix

/-- One pattern is labelled. -/
theorem patternConstant_labels (p : TextPattern) (depth : Nat) (st : Allocator × List Constant) : ∃ l : Label,
    Labels st.1 ((patternConstant owner field p depth).run st).2.1
      [⟨place, depth, ((patternConstant owner field p depth).run st).1⟩] [⟨place, depth, p.source⟩] [l] ∧
    ((patternConstant owner field p depth).run st).2.2 = st.2 ++ [l.const] := by
  refine ⟨⟨place, depth, ((patternConstant owner field p depth).run st).1, p.source⟩,
    ⟨rfl, rfl, fun name => ?_, List.nodup_singleton _, fun l hl => ?_⟩, rfl⟩
  · exact List.mem_cons.trans (or_comm.trans (or_congr_right List.mem_singleton.symm))
  · rw [List.mem_singleton.1 hl]
    exact ⟨st.1.fresh_not_mem _, (patternName_wanted owner field depth).fresh st.1⟩

/-- The patterns in rules on contents are labelled, by recursion on the rules. -/
theorem contents_labels : ∀ (depth : Nat) (rules : List Rule) (st : Allocator × List Constant), ∃ ls,
    Labels st.1 ((Rule.annotate.contents (patternConstant owner field) depth rules).run st).2.1
      (Meta.sitesAll place depth ((Rule.annotate.contents (patternConstant owner field) depth rules).run st).1)
      (Rule.sitesAll place depth rules) ls ∧
    ((Rule.annotate.contents (patternConstant owner field) depth rules).run st).2.2 = st.2 ++ ls.map Label.const
  | _, [], st => by
    rw [Rule.annotate.contents]
    exact ⟨[], .nil, (List.append_nil _).symm⟩
  | depth, .required :: rules, st | depth, .type _ :: rules, st
  | depth, .minLength _ :: rules, st | depth, .maxLength _ :: rules, st | depth, .minimum _ :: rules, st
  | depth, .maximum _ :: rules, st | depth, .minItems _ :: rules, st | depth, .maxItems _ :: rules, st => by
    simp only [Rule.annotate.contents]
    exact contents_labels depth rules st
  | depth, .oneOf members :: rules, st => by
    obtain ⟨ls, hls, hconstants⟩ := contents_labels depth rules st
    have hnone : (Meta.list "one_of" (members.map fun v => .value (memberLiteral v))).sites place depth = [] :=
      Meta.sites_list (by decide) fun _ m hm => by
        obtain ⟨v, -, rfl⟩ := List.mem_map.1 hm
        exact Meta.sites_value _
    rw [Rule.annotate.contents]
    refine ⟨ls, ?_, hconstants⟩
    change Labels _ _ ((Meta.list "one_of" _).sites place depth ++ Meta.sitesAll place depth _) _ ls
    rw [hnone]
    exact hls
  | depth, .fields set :: rules, st => by
    obtain ⟨ls, hls, hconstants⟩ := contents_labels depth rules st
    rw [Rule.annotate.contents]
    refine ⟨ls, ?_, hconstants⟩
    change Labels _ _ ((Meta.path "dive").sites place depth ++ Meta.sitesAll place depth _) _ ls
    rw [Meta.sites_path]
    exact hls
  | depth, .pattern p :: rules, st => by
    obtain ⟨l, hl, hconstant⟩ := patternConstant_labels owner field place p depth st
    obtain ⟨ls, hls, hconstants⟩ := contents_labels depth rules ((patternConstant owner field p depth).run st).2
    rw [Rule.annotate.contents]
    exact ⟨[l] ++ ls, hl.append hls, hconstants.trans (by rw [hconstant, List.append_assoc, List.map_append]; rfl)⟩
  | depth, .elements inner nullable :: rules, st => by
    obtain ⟨ls, hls, hconstants⟩ := contents_labels (depth + 1) inner st
    obtain ⟨ls', hls', hconstants'⟩ := contents_labels depth rules
      ((Rule.annotate.contents (patternConstant owner field) (depth + 1) inner).run st).2
    have hdive : ∀ ms, Meta.sitesAll place depth (Rule.listUnlessEmpty "dive" (Rule.sizeMetas false inner ++ ms)) =
        Meta.sitesAll place (depth + 1) ms := fun ms => by
      rw [Rule.sites_dive, Meta.sitesAll_append, Rule.sites_sizeMetas, List.nil_append]
    rw [Rule.annotate.contents]
    refine ⟨ls ++ ls', ?_, hconstants'.trans (by rw [hconstants, List.append_assoc, List.map_append])⟩
    change Labels _ _ (Meta.sitesAll place depth (Rule.listUnlessEmpty "dive" _ ++ _)) _ _
    rw [Meta.sitesAll_append, hdive]
    exact hls.append hls'

/-- **Writing rules as an attribute** labels all patterns in them. -/
theorem annotate_labels (optional : Bool) (depth : Nat) (rules : List Rule)
    (st : Allocator × List Constant) : ∃ ls,
    Labels st.1 ((Rule.annotate (patternConstant owner field) optional depth rules).run st).2.1
      (Meta.sitesAll place depth ((Rule.annotate (patternConstant owner field) optional depth rules).run st).1)
      (Rule.sitesAll place depth rules) ls ∧
    ((Rule.annotate (patternConstant owner field) optional depth rules).run st).2.2 = st.2 ++ ls.map Label.const := by
  obtain ⟨ls, hls, hconstants⟩ := contents_labels owner field place depth rules st
  refine ⟨ls, ?_, hconstants⟩
  change Labels _ _ (Meta.sitesAll place depth (Rule.sizeMetas optional rules ++ _)) _ _
  rw [Meta.sitesAll_append, Rule.sites_sizeMetas]
  exact hls

mutual

/-- An annotation leaves no pattern out. -/
theorem sites_annotationRule : ∀ (depth : Nat) (n : Schema.Node) (r : Rule),
    Rule.sitesAll place depth (annotationRule n r).toList = r.sites place depth
  | depth, n, .oneOf members => by
    rw [annotationRule]
    split <;> rfl
  | depth, n, .elements inner nullable => by
    rw [annotationRule]
    cases n.element? with
    | none => exact List.append_nil _
    | some element =>
      refine (List.append_nil _).trans ?_
      rw [Rule.sites, Rule.sites]
      exact sites_annotationRules (depth + 1) element inner
  | _, _, .pattern _ | _, _, .fields _ | _, _, .required | _, _, .type _ | _, _, .minLength _ | _, _, .maxLength _
  | _, _, .minimum _ | _, _, .maximum _ | _, _, .minItems _ | _, _, .maxItems _ => rfl

theorem sites_annotationRules : ∀ (depth : Nat) (n : Schema.Node) (rules : List Rule),
    Rule.sitesAll place depth (annotationRules n rules) = Rule.sitesAll place depth rules
  | _, _, [] => by rw [annotationRules]
  | depth, n, r :: rules => by
    rw [annotationRules, Rule.sitesAll_append, sites_annotationRule depth n r, sites_annotationRules depth n rules,
      Rule.sitesAll]

end

end Annotate

/-! ## In sources -/

/-- The occurrences of patterns in the rules of a source. -/
def Source.sites : Source → List PatternSite
  | node n => match n.kind with
    | .object fields => fields.flatMap fun f => Rule.sitesAll f.name 0 f.rules
    | _ => []
  | request _ op => op.request.body.toList.flatMap fun body => Rule.sitesAll "body" 0 body.rules
  | payload _ _ | envelope _ _ => []

end Emission

end ApiForge

import ApiForge.Proofs.Rule.Violations

/-!
# Places of violations

A violation is reported at the place that is checked, followed by the steps that lead from there to what it is about.

* `Json.at? steps v`: the value that steps lead to inside a value.
* `Expectation.Reaches d v steps d' w`: what is expected of a value comes down to `d'` being expected of the value `w`
  that the steps lead to. The rules of items and members do not concern `null`.
* `Finding.Right d v f`: what a violation says about the value is so.
* `Located d v check`: the violations that a check reports from any place that is not empty are the same findings seen
  from that place, and they are right. A check of a container is located if the checks of its contents are
  (`Located.item`, `Located.member`).
* `reportValue`, `reportField`, `reportObject`: checks that add to a list.
* `checks_located`: all checks are located, and a report leaves what is listed already as it is.
-/

namespace ApiForge

/-! ## Steps -/

/-- A step into a value. -/
inductive Step where
  | member (key : String)
  | item (index : Nat)

/-- How a step is written. -/
def Step.text : Step → String
  | member key => "." ++ key
  | item index => s!"[{index}]"

/-- How steps are written. -/
def Step.texts : List Step → String
  | [] => ""
  | st :: sts => st.text ++ texts sts

/-- The value that steps lead to. -/
def Json.at? : List Step → Json → Option Json
  | [], v => some v
  | .member key :: sts, v => (v.get? key).bind (at? sts)
  | .item index :: sts, v => (v.items?.bind (·[index]?)).bind (at? sts)

/-! ## Expectations -/

/-- What is expected of a value. -/
structure Expectation where
  rules : List Rule
  /-- Whether `null` is refused. -/
  nonNull : Bool

/-- What is expected of a place that may hold `null`; the rules are for other values. -/
def Expectation.ofPlace (rules : List Rule) (nonNull : Bool) (v : Json) : Expectation :=
  ⟨if v.isNull then [] else rules, nonNull⟩

/-- What is expected of the member of a record. -/
def FieldRules.expectation (r : FieldRules) (v : Json) : Expectation :=
  .ofPlace r.rules (r.rules.any Rule.isRequired && !r.nullable) v

/-- What is expected of a record. -/
def RuleSet.expectation (set : RuleSet) : Expectation := ⟨[.type .object, .fields set], false⟩

/-- The expectation `d'` is made of the value `w` that the steps lead to. -/
inductive Expectation.Reaches : Expectation → Json → List Step → Expectation → Json → Prop where
  | here {d : Expectation} {v : Json} : Reaches d v [] d v
  | item {d d' : Expectation} {items : List Json} {inner : List Rule} {nullable : Bool} {i : Nat} {x w : Json}
      {sts : List Step} : .elements inner nullable ∈ d.rules → items[i]? = some x →
      Reaches (.ofPlace inner (!nullable) x) x sts d' w → Reaches d (.arr items) (.item i :: sts) d' w
  | member {d d' : Expectation} {ms : Json.Members} {set : RuleSet} {r : FieldRules} {x w : Json} {sts : List Step} :
      .fields set ∈ d.rules → r ∈ set.fields → ms.get? r.wireKey = some x → Reaches (r.expectation x) x sts d' w →
      Reaches d (.obj ms) (.member r.wireKey :: sts) d' w

/-- Whether a value breaks a rule by itself and not by its contents. -/
def Rule.Rejects (v : Json) : Rule → Prop
  | .type shape => shapeAccepts v shape = false
  | r => ¬ r.Asks v

/-- A value breaks a rule of the kind, or it is a refused `null`, which counts as a wrong type. -/
def Expectation.Fails (d : Expectation) (v : Json) (kind : RuleKind) : Prop :=
  (∃ r ∈ d.rules, r.kind = kind ∧ r.Rejects v) ∨ d.nonNull = true ∧ v = .null ∧ kind = .type

/-- A member with this key must be present in an object. -/
def Expectation.AsksFor (d : Expectation) (key : String) : Prop :=
  ∃ set r, .fields set ∈ d.rules ∧ r ∈ set.fields ∧ r.wireKey = key ∧ .required ∈ r.rules

theorem Expectation.Reaches.at? {d d' : Expectation} {v w : Json} {sts : List Step} (h : d.Reaches v sts d' w) :
    Json.at? sts v = some w := by
  induction h with
  | here => rfl
  | item _ hx _ ih => simpa [Json.at?, Json.items?, hx] using ih
  | member _ _ hx _ ih => simpa [Json.at?, Json.get?, Json.members?, hx] using ih

/-! ## Findings -/

/-- What a violation says, apart from the place that is checked. -/
structure Finding where
  steps : List Step
  kind : RuleKind
  message : String

namespace Finding

/-- The violation, where the value stands at a place. -/
def seenFrom (place : String) (f : Finding) : Violation := ⟨place ++ Step.texts f.steps, f.kind, f.message⟩

/-- The finding about the contents of a container, seen from the container. -/
def below (st : Step) (f : Finding) : Finding := { f with steps := st :: f.steps }

/-- What the finding says is so: the steps lead to a value that fails; or what they lead to is missing, and this is what
the finding says. -/
def Right (d : Expectation) (v : Json) (f : Finding) : Prop :=
  (f.kind ≠ .required ∧ ∃ d' w, Json.at? f.steps v = some w ∧ d.Reaches v f.steps d' w ∧ d'.Fails w f.kind) ∨
  (f.kind = .required ∧ ∃ (sts : List Step) (key : String) (d' : Expectation) (ms : Json.Members),
    f.steps = sts ++ [.member key] ∧ Json.at? sts v = some (.obj ms) ∧ ms.get? key = none ∧
      d.Reaches v sts d' (.obj ms) ∧ d'.AsksFor key)

variable {d d₁ : Expectation} {v : Json} {f : Finding}

theorem seenFrom_below (st : Step) (place : String) :
    (f.below st).seenFrom place = f.seenFrom (place ++ st.text) := by
  simp only [seenFrom, below, Step.texts, String.append_assoc]

/-- What is right of the contents is right of the container, if a step leads there. -/
theorem Right.below {st : Step} {x : Json} (h : f.Right d v) (hstep : ∀ sts e w, d.Reaches v sts e w →
    d₁.Reaches x (st :: sts) e w) : (f.below st).Right d₁ x := by
  rcases h with ⟨hkind, e, w, hat, hreach, hfails⟩ | ⟨hkind, sts, key, e, ms, hsteps, hat, hnone, hreach, hasks⟩
  · have hreach := hstep _ _ _ hreach
    exact .inl ⟨hkind, e, w, hreach.at?, hreach, hfails⟩
  · have hreach := hstep _ _ _ hreach
    refine .inr ⟨hkind, st :: sts, key, e, ms, ?_, hreach.at?, hnone, hreach, hasks⟩
    rw [Finding.below, hsteps, List.cons_append]

/-- A finding about the value itself. -/
theorem Right.here (hsteps : f.steps = []) (hkind : f.kind ≠ .required) (hfails : d.Fails v f.kind) : f.Right d v := by
  refine .inl ⟨hkind, d, v, ?_, ?_, hfails⟩
  · rw [hsteps]
    rfl
  · rw [hsteps]
    exact .here

end Finding

/-! ## Located checks -/

/-- The check reports the same right findings from every place. -/
def Located (d : Expectation) (v : Json) (check : String → List Violation) : Prop :=
  ∃ findings : List Finding, (∀ place, place ≠ "" → check place = findings.map (·.seenFrom place)) ∧
    ∀ f ∈ findings, f.Right d v

namespace Located

variable {d d₁ : Expectation} {v : Json} {check check' : String → List Violation}

theorem nil : Located d v fun _ => [] := ⟨[], fun _ _ => rfl, by nofun⟩

/-- Only places that are not empty count. -/
theorem congr (h : Located d v check) (heq : ∀ place, place ≠ "" → check' place = check place) :
    Located d v check' := by
  obtain ⟨fs, hseen, hright⟩ := h
  exact ⟨fs, fun place hplace => (heq place hplace).trans (hseen place hplace), hright⟩

theorem append (h : Located d v check) (h' : Located d v check') :
    Located d v fun place => check place ++ check' place := by
  obtain ⟨fs, hseen, hright⟩ := h
  obtain ⟨fs', hseen', hright'⟩ := h'
  refine ⟨fs ++ fs', fun place hplace => ?_, fun f hf => ?_⟩
  · dsimp only
    rw [hseen place hplace, hseen' place hplace, List.map_append]
  · rcases List.mem_append.1 hf with hf | hf
    · exact hright f hf
    · exact hright' f hf

theorem flatten {α : Type} {checks : String → α → List Violation} : ∀ {as : List α},
    (∀ a ∈ as, Located d v fun place => checks place a) → Located d v fun place => (as.map (checks place)).flatten
  | [], _ => .nil
  | _ :: _, h => by
    obtain ⟨hhead, htail⟩ := List.forall_mem_cons.1 h
    exact hhead.append (flatten htail)

/-- The check of the contents, one step below. -/
theorem below {st : Step} {x : Json} (h : Located d v check)
    (hstep : ∀ sts e w, d.Reaches v sts e w → d₁.Reaches x (st :: sts) e w) :
    Located d₁ x fun place => check (place ++ st.text) := by
  obtain ⟨fs, hseen, hright⟩ := h
  refine ⟨fs.map (·.below st), fun place hplace => ?_, fun f hf => ?_⟩
  · have hbelow : place ++ st.text ≠ "" := fun h => hplace (String.append_eq_empty_iff.1 h).1
    dsimp only
    rw [hseen _ hbelow, List.map_map]
    exact List.map_congr_left fun f _ => (f.seenFrom_below st place).symm
  · obtain ⟨g, hg, rfl⟩ := List.mem_map.1 hf
    exact (hright g hg).below hstep

/-- One finding about the value itself. -/
theorem single {kind : RuleKind} {message : String} (hkind : kind ≠ .required) (h : d.Fails v kind) :
    Located d v fun place => [⟨place, kind, message⟩] := by
  refine ⟨[⟨[], kind, message⟩], fun place _ => ?_, List.forall_mem_singleton.2 (.here rfl hkind h)⟩
  simp [Finding.seenFrom, Step.texts]

/-- At most one finding about the value itself. -/
theorem unless_ {kind : RuleKind} {message : String} {ok : Bool} (hkind : kind ≠ .required)
    (h : ok = false → d.Fails v kind) : Located d v fun place => Rule.unless_ ok place kind message := by
  cases ok with
  | true => exact .nil
  | false => exact .single hkind (h rfl)

end Located

/-! ## The checks -/

namespace Rule

variable {d : Expectation} {v : Json}

theorem memberPath_eq {place : String} (h : place ≠ "") (key : String) :
    memberPath place key = place ++ (Step.member key).text := by
  have hempty : place.isEmpty = false := Bool.eq_false_iff.2 fun hp => h (String.isEmpty_iff.1 hp)
  rw [memberPath, hempty, if_neg Bool.false_ne_true, Step.text, String.append_assoc]

theorem itemPath_eq (place : String) (i : Nat) : itemPath place i = place ++ (Step.item i).text := by
  rw [itemPath, Step.text, ← String.append_assoc, ← String.append_assoc]
  rfl

/-- A leaf reports its own kind or nothing, with one message whatever the place is. -/
theorem exists_checkLeaf_eq (v : Json) (r : Rule) :
    ∃ ok message, ∀ place, checkLeaf v place r = unless_ ok place r.kind message := by
  have hnothing : (∀ place, checkLeaf v place r = []) → ∃ ok message, ∀ place,
      checkLeaf v place r = unless_ ok place r.kind message := fun h => ⟨true, "", h⟩
  cases r with
  | required | type | fields | elements => exact hnothing fun _ => rfl
  | oneOf members => exact ⟨_, _, fun _ => rfl⟩
  | minLength | maxLength | pattern =>
    cases v with
    | str => exact ⟨_, _, fun _ => rfl⟩
    | _ => exact hnothing fun _ => rfl
  | minimum | maximum =>
    cases v with
    | num => exact ⟨_, _, fun _ => rfl⟩
    | _ => exact hnothing fun _ => rfl
  | minItems | maxItems =>
    cases v with
    | arr => exact ⟨_, _, fun _ => rfl⟩
    | _ => exact hnothing fun _ => rfl

theorem checkLeaf_located {r : Rule} (hr : r ∈ d.rules) : Located d v fun place => checkLeaf v place r := by
  obtain ⟨ok, message, heq⟩ := exists_checkLeaf_eq v r
  have hasks : ok = false → ¬ r.Asks v := by
    rintro rfl h
    have hnil : checkLeaf v "" r = [] := checkLeaf_eq_nil.2 h
    rw [heq] at hnil
    cases hnil
  have hrequired : ok = false → r.kind ≠ .required := by
    intro hok hkind
    cases r with
    | required => exact hasks hok trivial
    | _ => cases hkind
  have hrejects : ok = false → r.Rejects v := by
    intro hok
    cases r with
    | type => exact absurd trivial (hasks hok)
    | _ => exact hasks hok
  simp only [heq]
  cases ok with
  | true => exact .nil
  | false => exact .unless_ (hrequired rfl) fun _ => .inl ⟨r, hr, rfl, hrejects rfl⟩

/-- The check of a place that may hold `null`, given the check of other values. -/
theorem ofPlace_located {rules : List Rule} {nonNull : Bool} {check : String → List Violation}
    (hcheck : Located ⟨rules, nonNull⟩ v check) : Located (.ofPlace rules nonNull v) v fun place =>
      if v.isNull then (if nonNull then [unwantedNull place] else []) else check place := by
  cases v with
  | null =>
    cases nonNull with
    | false => exact .nil
    | true => exact .single (by decide) (.inr ⟨rfl, rfl, rfl⟩)
  | _ => exact hcheck

/-- The checks of the items of an array. -/
theorem items_located {items : List Json} {inner : List Rule} {nullable : Bool}
    (hr : .elements inner nullable ∈ d.rules)
    (hinner : ∀ x, Located ⟨inner, !nullable⟩ x fun place => checkValue x place inner) :
    Located d (.arr items) fun place => (items.zipIdx.map fun (item, i) =>
      if item.isNull then (if nullable then [] else [unwantedNull (itemPath place i)])
      else checkValue item (itemPath place i) inner).flatten := by
  refine Located.flatten ?_
  rintro ⟨x, i⟩ hmem
  have hx : items[i]? = some x := List.mk_mem_zipIdx_iff_getElem?.1 hmem
  have hstep : ∀ sts e w, (Expectation.ofPlace inner (!nullable) x).Reaches x sts e w →
      d.Reaches (.arr items) (.item i :: sts) e w := fun _ _ _ hreach => .item hr hx hreach
  have hitem := (ofPlace_located (hinner x)).below hstep
  simp only [itemPath_eq]
  cases nullable <;> exact hitem

/-- The check of a field that is present. -/
theorem checkField_located {rules : List Rule} (hrules : ∀ nonNull, Located ⟨rules, nonNull⟩ v fun place =>
    checkValue v place rules) (nullable : Bool) :
    Located (.ofPlace rules (rules.any isRequired && !nullable) v) v fun place =>
      checkField rules nullable (some v) place := by
  refine (ofPlace_located (hrules _)).congr fun place _ => ?_
  cases v <;> rfl

/-- The check of a member of a record, present or not. -/
theorem member_located {members : Json.Members} {set : RuleSet} {r : FieldRules} (hset : .fields set ∈ d.rules)
    (hr : r ∈ set.fields) (hrules : ∀ x nonNull, Located ⟨r.rules, nonNull⟩ x fun place => checkValue x place r.rules) :
    Located d (.obj members) fun place =>
      checkField r.rules r.nullable (members.get? r.wireKey) (memberPath place r.wireKey) := by
  cases hx : members.get? r.wireKey with
  | some x =>
    have hfield := checkField_located (hrules x) r.nullable
    have hstep : ∀ sts e w, (r.expectation x).Reaches x sts e w →
        d.Reaches (.obj members) (.member r.wireKey :: sts) e w := fun _ _ _ hreach => .member hset hr hx hreach
    refine (hfield.below hstep).congr ?_
    intro place hplace
    rw [memberPath_eq hplace]
  | none =>
    cases hrequired : r.rules.any isRequired with
    | false =>
      refine Located.nil.congr fun place _ => ?_
      simp [checkField, hrequired]
    | true =>
      refine ⟨[⟨[.member r.wireKey], .required, "is required"⟩], fun place hplace => ?_, ?_⟩
      · simp [checkField, hrequired, memberPath_eq hplace, missing, Finding.seenFrom, Step.texts]
      · refine List.forall_mem_singleton.2 (.inr ⟨rfl, [], r.wireKey, d, members, rfl, rfl, hx, .here, ?_⟩)
        exact ⟨set, r, hset, hr, rfl, required_mem_iff.2 hrequired⟩

mutual

/-- **Violations of a value are located**, whatever else is expected of it. -/
theorem checkValue_located : ∀ (rules : List Rule) (d : Expectation) (v : Json), rules ⊆ d.rules →
    Located d v fun place => checkValue v place rules
  | [], _, _, _ => .nil
  | .type shape :: rules, d, v, h => by
    obtain ⟨hr, hrest⟩ := List.cons_subset.1 h
    simp only [checkValue]
    cases hshape : shapeAccepts v shape with
    | true => exact checkValue_located rules d v hrest
    | false => exact .single (by decide) (.inl ⟨_, hr, rfl, hshape⟩)
  | .fields set :: rules, d, v, h => by
    obtain ⟨hr, hrest⟩ := List.cons_subset.1 h
    cases v with
    | obj members => exact (checkFields_located set d members hr).append (checkValue_located rules d _ hrest)
    | _ => exact checkValue_located rules d _ hrest
  | .elements inner nullable :: rules, d, v, h => by
    obtain ⟨hr, hrest⟩ := List.cons_subset.1 h
    cases v with
    | arr items =>
      refine (items_located hr fun x => ?_).append (checkValue_located rules d _ hrest)
      exact checkValue_located inner ⟨inner, !nullable⟩ x (List.Subset.refl _)
    | _ => exact checkValue_located rules d _ hrest
  | .required :: rules, d, v, h | .minLength _ :: rules, d, v, h | .maxLength _ :: rules, d, v, h
  | .minimum _ :: rules, d, v, h | .maximum _ :: rules, d, v, h | .minItems _ :: rules, d, v, h
  | .maxItems _ :: rules, d, v, h | .oneOf _ :: rules, d, v, h | .pattern _ :: rules, d, v, h => by
    obtain ⟨hr, hrest⟩ := List.cons_subset.1 h
    exact ((checkLeaf_located hr).append (checkValue_located rules d v hrest)).congr
      fun _ _ => checkValue_leaf rfl rules

theorem checkFields_located : ∀ (set : RuleSet) (d : Expectation) (members : Json.Members), .fields set ∈ d.rules →
    Located d (.obj members) fun place => checkFields members place set
  | ⟨name, fs⟩, d, members, h => by
    simp only [checkFields]
    exact checkFieldList_located fs d members name fs h (List.Subset.refl _)

theorem checkFieldList_located : ∀ (fields : List FieldRules) (d : Expectation) (members : Json.Members) (name : String)
    (all : List FieldRules), .fields ⟨name, all⟩ ∈ d.rules → fields ⊆ all →
    Located d (.obj members) fun place => checkFieldList members place fields
  | [], _, _, _, _, _, _ => .nil
  | ⟨key, nullable, rules⟩ :: rest, d, members, name, all, h, hsub => by
    obtain ⟨hr, hrest⟩ := List.cons_subset.1 hsub
    simp only [checkFieldList_cons]
    refine (member_located h hr fun x nonNull => ?_).append (checkFieldList_located rest d members name all h hrest)
    exact checkValue_located rules ⟨rules, nonNull⟩ x (List.Subset.refl _)

end

theorem checkObject_located (set : RuleSet) (v : Json) : Located set.expectation v (checkObject set v) := by
  have h := checkValue_located set.expectation.rules set.expectation v (List.Subset.refl _)
  refine h.congr fun place _ => ?_
  cases v <;> simp [RuleSet.expectation, checkObject, checkValue, shapeAccepts, Json.members?]

/-! ## Reports -/

mutual

/-- Checks a present value, rule by rule, and adds what is violated to a list. -/
def reportValue (v : Json) (place : String) : List Rule → List Violation → List Violation
  | [], out => out
  | .type shape :: rules, out =>
    if shapeAccepts v shape then reportValue v place rules out else out ++ [wrongShape place shape]
  | .fields set :: rules, out =>
    reportValue v place rules (match v with
      | .obj members => reportFields members place set out
      | _ => out)
  | .elements inner nullable :: rules, out =>
    reportValue v place rules (match v with
      | .arr items => items.zipIdx.foldl (fun out (item, i) =>
          if item.isNull then (if nullable then out else out ++ [unwantedNull (itemPath place i)])
          else reportValue item (itemPath place i) inner out) out
      | _ => out)
  | rule :: rules, out => reportValue v place rules (out ++ checkLeaf v place rule)

/-- Checks the fields of a record and adds what is violated to a list. -/
def reportFields (members : Json.Members) (place : String) : RuleSet → List Violation → List Violation
  | ⟨_, fs⟩, out => reportFieldList members place fs out

/-- Checks fields one by one and adds what is violated to a list. -/
def reportFieldList (members : Json.Members) (place : String) : List FieldRules → List Violation → List Violation
  | [], out => out
  | ⟨key, nullable, rules⟩ :: rest, out =>
    reportFieldList members place rest (match members.get? key with
      | none => if rules.any isRequired then out ++ [missing (memberPath place key)] else out
      | some .null =>
        if rules.any isRequired && !nullable then out ++ [unwantedNull (memberPath place key)] else out
      | some v => reportValue v (memberPath place key) rules out)

end

/-- Checks a value that may be absent and adds what is violated to a list. -/
def reportField (rules : List Rule) (nullable : Bool) (value : Option Json) (place : String) (out : List Violation) :
    List Violation :=
  match value with
  | none => if rules.any isRequired then out ++ [missing place] else out
  | some .null => if rules.any isRequired && !nullable then out ++ [unwantedNull place] else out
  | some v => reportValue v place rules out

/-- Checks a value against the rules of a record and adds what is violated to a list. -/
def reportObject (set : RuleSet) (value : Json) (place : String) (out : List Violation) : List Violation :=
  match value with
  | .obj members => reportFields members place set out
  | _ => out ++ [wrongShape place .object]

/-- Adding to a list item by item. -/
theorem foldl_eq_append {α β : Type} {step : List β → α → List β} {found : α → List β} :
    ∀ (as : List α) (out : List β), (∀ a ∈ as, ∀ out, step out a = out ++ found a) →
      as.foldl step out = out ++ (as.map found).flatten
  | [], out, _ => (List.append_nil out).symm
  | a :: as, out, h => by
    obtain ⟨hhead, htail⟩ := List.forall_mem_cons.1 h
    rw [List.foldl_cons, hhead, foldl_eq_append as _ htail, List.append_assoc, List.map_cons, List.flatten_cons]

theorem reportValue_leaf {r : Rule} (h : r.isLeaf = true) (v : Json) (place : String) (rules : List Rule)
    (out : List Violation) :
    reportValue v place (r :: rules) out = reportValue v place rules (out ++ checkLeaf v place r) := by
  cases r <;> first | rfl | simp [isLeaf] at h

theorem reportFieldList_cons (members : Json.Members) (place key : String) (nullable : Bool) (rules : List Rule)
    (rest : List FieldRules) (out : List Violation) :
    reportFieldList members place (⟨key, nullable, rules⟩ :: rest) out = reportFieldList members place rest
      (reportField rules nullable (members.get? key) (memberPath place key) out) := by
  rw [reportFieldList]
  rcases members.get? key with _ | (_ | _ | _ | _ | _ | _) <;> rfl

theorem reportField_eq {rules : List Rule} (hrules : ∀ v place out, reportValue v place rules out =
    out ++ checkValue v place rules) (nullable : Bool) (value : Option Json) (place : String) (out : List Violation) :
    reportField rules nullable value place out = out ++ checkField rules nullable value place := by
  match value with
  | none | some .null =>
    dsimp only [reportField, checkField]
    split <;> simp
  | some (.bool _) | some (.num _) | some (.str _) | some (.arr _) | some (.obj _) => exact hrules _ place out

mutual

/-- **A report adds the violations** and leaves what is listed already as it is. -/
theorem reportValue_eq : ∀ (rules : List Rule) (v : Json) (place : String) (out : List Violation),
    reportValue v place rules out = out ++ checkValue v place rules
  | [], _, _, out => by
    rw [reportValue, checkValue, List.append_nil]
  | .type shape :: rules, v, place, out => by
    rw [reportValue, checkValue]
    split
    · exact reportValue_eq rules v place out
    · rfl
  | .fields set :: rules, v, place, out => by
    cases v with
    | obj members =>
      simp only [reportValue, checkValue]
      rw [reportValue_eq rules, reportFields_eq set members place out, List.append_assoc]
    | _ => exact reportValue_eq rules _ place out
  | .elements inner nullable :: rules, v, place, out => by
    cases v with
    | arr items =>
      simp only [reportValue, checkValue]
      rw [reportValue_eq rules, ← List.append_assoc]
      congr 1
      refine foldl_eq_append _ out ?_
      rintro ⟨x, i⟩ - out
      dsimp only
      cases x.isNull with
      | true => cases nullable <;> simp
      | false => exact reportValue_eq inner x (itemPath place i) out
    | _ => exact reportValue_eq rules _ place out
  | .required :: rules, v, place, out | .minLength _ :: rules, v, place, out | .maxLength _ :: rules, v, place, out
  | .minimum _ :: rules, v, place, out | .maximum _ :: rules, v, place, out | .minItems _ :: rules, v, place, out
  | .maxItems _ :: rules, v, place, out | .oneOf _ :: rules, v, place, out | .pattern _ :: rules, v, place, out => by
    rw [reportValue_leaf rfl, reportValue_eq rules, checkValue_leaf rfl, List.append_assoc]

theorem reportFields_eq : ∀ (set : RuleSet) (members : Json.Members) (place : String) (out : List Violation),
    reportFields members place set out = out ++ checkFields members place set
  | ⟨_, fs⟩, members, place, out => by
    rw [reportFields, checkFields]
    exact reportFieldList_eq fs members place out

theorem reportFieldList_eq : ∀ (fields : List FieldRules) (members : Json.Members) (place : String)
    (out : List Violation), reportFieldList members place fields out = out ++ checkFieldList members place fields
  | [], _, _, out => by
    rw [reportFieldList, checkFieldList, List.append_nil]
  | ⟨key, nullable, rules⟩ :: rest, members, place, out => by
    have hfield := reportField_eq (fun v place out => reportValue_eq rules v place out) nullable (members.get? key)
      (memberPath place key) out
    rw [reportFieldList_cons, checkFieldList_cons, hfield, reportFieldList_eq rest, List.append_assoc]

end

theorem reportObject_eq (set : RuleSet) (value : Json) (place : String) (out : List Violation) :
    reportObject set value place out = out ++ checkObject set value place := by
  cases value with
  | obj members => exact reportFields_eq set members place out
  | _ => rfl

/-- **Violations lead to what is wrong, from wherever a value is looked at.** Every check of a value reports the same
findings from all places that are not empty, in the same order, and each of them is right: its steps lead from the value
that is checked to one on which a rule of its kind fails, or a `null` that is refused; or, where something required is
missing, to the object and on to the key that it lacks. Reporting into a list changes nothing that is listed already. -/
theorem checks_located (rules : List Rule) (nullable : Bool) (set : RuleSet) (v : Json) :
    Located ⟨rules, false⟩ v (fun place => checkValue v place rules) ∧
    Located (.ofPlace rules (rules.any isRequired && !nullable) v) v
      (fun place => checkField rules nullable (some v) place) ∧
    Located set.expectation v (checkObject set v) ∧
    ∀ place out, reportValue v place rules out = out ++ checkValue v place rules ∧
      reportField rules nullable (some v) place out = out ++ checkField rules nullable (some v) place ∧
      reportObject set v place out = out ++ checkObject set v place := by
  refine ⟨checkValue_located rules _ v (List.Subset.refl _), ?_, checkObject_located set v, fun place out => ?_⟩
  · exact checkField_located (fun nonNull => checkValue_located rules ⟨rules, nonNull⟩ v (List.Subset.refl _)) nullable
  · exact ⟨reportValue_eq rules v place out, reportField_eq (reportValue_eq rules) nullable (some v) place out,
      reportObject_eq set v place out⟩

end Rule

end ApiForge

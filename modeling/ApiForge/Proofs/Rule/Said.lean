import ApiForge.Decimal.Read
import ApiForge.Proofs.Decimal.Whole
import ApiForge.Schema.Node

/-!
# Reading rules back from attributes

An attribute regroups the rules of a field: limits of one kind are written together, and then members, patterns and
contents follow in the order of the rules. What it leaves out is left to the declared type.

* `Rule.Said`: a rule as far as it is said in an attribute; `Rule.saidAll` is what a list of rules says.
* `Said.ofMetas`: reads an attribute, given the sources that are held in constants.
* `Said.Agrees`: what is read back agrees with what has been said, but for the way numbers and members are written.
* `ofMetas_sizeMetas`: limits are read back, if they stand in one place of the rules.
-/

namespace ApiForge

namespace Rule

open Code Decimal Schema

/-- A rule as far as it is said in an attribute. -/
inductive Said where
  | required
  | minLength (n : Nat)
  | maxLength (n : Nat)
  | minimum (bound : Bound)
  | maximum (bound : Bound)
  | minItems (n : Nat)
  | maxItems (n : Nat)
  | oneOf (members : List Json)
  /-- A pattern, by its source. -/
  | pattern (source : String)
  /-- The value is a record with rules of its own. -/
  | record
  /-- What is said of the items of an array. -/
  | items (inner : List Said)

/-! ## What rules say -/

mutual

/-- Whether a rule asks for nothing but a shape, at any depth. -/
def isBare : Rule → Bool
  | .type _ => true
  | .elements inner _ => areBare inner
  | _ => false

/-- Whether rules ask for nothing but shapes. -/
def areBare : List Rule → Bool
  | [] => true
  | rule :: rules => isBare rule && areBare rules

end

mutual

/-- What a rule says. Shapes are left to the declared type, and so are arrays whose items have nothing but shapes;
presence is said of optional fields only. -/
def said (optional : Bool) : Rule → List Said
  | .required => if optional then [.required] else []
  | .type _ => []
  | .minLength n => [.minLength n]
  | .maxLength n => [.maxLength n]
  | .minimum b => [.minimum b]
  | .maximum b => [.maximum b]
  | .minItems n => [.minItems n]
  | .maxItems n => [.maxItems n]
  | .oneOf members => [.oneOf members]
  | .pattern p => [.pattern p.source]
  | .fields _ => [.record]
  | .elements inner _ => if areBare inner then [] else [.items (saidAll false inner)]

/-- What rules say, in their order. -/
def saidAll (optional : Bool) : List Rule → List Said
  | [] => []
  | rule :: rules => said optional rule ++ saidAll optional rules

end

/-! ## Reading attributes -/

/-- The value of an argument. -/
def argument? (name : String) (items : List Meta) : Option Expression :=
  items.findSome? fun
    | .nameValue n e => if n = name then some e else none
    | _ => none

/-- Whether an argument is set. -/
def isSet (name : String) (items : List Meta) : Bool :=
  match argument? name items with
  | some (.lit (.bool value)) => value
  | _ => false

/-- A number of characters or items. -/
def natural? : Expression → Option Nat
  | .lit (.int n) => n.toNat?
  | _ => none

/-- A number. -/
def number? : Expression → Option Float
  | .lit (.int n) => some (Float.ofInt n)
  | .lit (.float x) => some x
  | _ => none

/-- A member of an enumeration. -/
def member? : Meta → Option Json
  | .value (.lit (.str s)) => some (.str s)
  | .value (.lit (.bool b)) => some (.bool b)
  | .value (.lit (.int n)) => some (.num (.int n))
  | .value (.lit (.float x)) => some (.num (.float x))
  | _ => none

namespace Said

/-- The two limits of a size. -/
def sizes (low high : Nat → Said) (items : List Meta) : List Said :=
  (((argument? "min" items).bind natural?).map low).toList ++
    (((argument? "max" items).bind natural?).map high).toList

/-- The two limits of a number. -/
def range (items : List Meta) : List Said :=
  (((argument? "min" items).bind number?).map fun x => minimum ⟨x, isSet "exclusive_min" items⟩).toList ++
    (((argument? "max" items).bind number?).map fun x => maximum ⟨x, isSet "exclusive_max" items⟩).toList

mutual

/-- Reads the content of an attribute back, given the sources that are held in constants. -/
def ofMeta (source : String → Option String) : Meta → List Said
  | .path name => if name = "required" then [required] else if name = "dive" then [record] else []
  | .list name args =>
    if name = "length" then sizes minLength maxLength args
    else if name = "range" then range args
    else if name = "items" then sizes minItems maxItems args
    else if name = "one_of" then [oneOf (args.filterMap member?)]
    else if name = "regex" then
      match argument? "path" args with
      | some (.path c) => ((source c).map pattern).toList
      | _ => []
    else if name = "dive" then [Said.items (ofMetas source args)]
    else []
  | _ => []

/-- Reads the contents of an attribute back. -/
def ofMetas (source : String → Option String) : List Meta → List Said
  | [] => []
  | m :: ms => ofMeta source m ++ ofMetas source ms

end

end Said

/-! ## Agreement -/

/-- Numbers that are the same but for the sign of zero. -/
def SameNumber (x y : Float) : Prop := x = y ∨ (x == y) = true

/-- A member of an enumeration as it is said, and the member. Members are compared as binary64 numbers, and an integer
of more than 64 bits with a sign is said as the number that it is compared as; what is no scalar is said as its text. -/
inductive SameMember : Json → Json → Prop where
  | text (s : String) : SameMember (.str s) (.str s)
  | bool (b : Bool) : SameMember (.bool b) (.bool b)
  | int {n : Int} : n ≤ maxSigned → SameMember (.num (.int n)) (.num (.int n))
  | number {a : Number} {x : Float} : SameNumber a.toFloat x → SameMember (.num a) (.num (.float x))
  | large {a : Number} {n : Int} : maxSigned < n → SameNumber a.toFloat (Float.ofInt n) →
      SameMember (.num a) (.num (.int n))
  | other {v : Json} : v.text? = none → v.bool? = none → v.float? = none → SameMember (.str v.text) v

/-- What is read back agrees with what has been said. -/
inductive Said.Agrees : Said → Said → Prop where
  | same (a : Said) : Agrees a a
  | minimum {a b : Bound} : SameNumber a.value b.value → a.exclusive = b.exclusive → Agrees (.minimum a) (.minimum b)
  | maximum {a b : Bound} : SameNumber a.value b.value → a.exclusive = b.exclusive → Agrees (.maximum a) (.maximum b)
  | oneOf {as bs : List Json} : List.Forall₂ SameMember as bs → Agrees (.oneOf as) (.oneOf bs)
  | items {as bs : List Said} : List.Forall₂ Agrees as bs → Agrees (.items as) (.items bs)

section Literals

theorem number?_numberLiteral (x : Float) : ∃ y, number? (numberLiteral x) = some y ∧ SameNumber y x := by
  unfold numberLiteral
  split
  · rename_i n hn
    split
    · rename_i hsmall
      exact ⟨_, rfl, .inr (ofInt_of_wholeValue? hn (by omega))⟩
    · exact ⟨x, rfl, .inl rfl⟩
  · exact ⟨x, rfl, .inl rfl⟩

/-- A number is said by a number. -/
theorem member?_numberLiteral (x : Float) :
    ∃ a, member? (.value (numberLiteral x)) = some (.num a) ∧ SameNumber a.toFloat x := by
  unfold numberLiteral
  split
  · rename_i n hn
    split
    · rename_i hsmall
      exact ⟨.int n, rfl, .inr (ofInt_of_wholeValue? hn (by omega))⟩
    · exact ⟨.float x, rfl, .inl rfl⟩
  · exact ⟨.float x, rfl, .inl rfl⟩

theorem member?_memberLiteral : ∀ v : Json, ∃ w, member? (.value (memberLiteral v)) = some w ∧ SameMember w v
  | .str s => ⟨_, rfl, .text s⟩
  | .bool b => ⟨_, rfl, .bool b⟩
  | .num (.int n) => by
    rw [memberLiteral]
    split
    · rename_i hn
      exact ⟨_, rfl, .int hn⟩
    · rename_i hn
      obtain ⟨a, ha, hsame⟩ := member?_numberLiteral (Float.ofInt n)
      exact ⟨_, ha, .large (Int.not_le.1 hn) hsame⟩
  | .num (.float x) =>
    let ⟨_, ha, hsame⟩ := member?_numberLiteral x
    ⟨_, ha, .number hsame⟩
  | .null | .arr _ | .obj _ => ⟨_, rfl, .other rfl rfl rfl⟩

theorem sameMembers : ∀ members : List Json,
    List.Forall₂ SameMember ((members.map fun v => Meta.value (memberLiteral v)).filterMap member?) members
  | [] => .nil
  | v :: vs => by
    obtain ⟨w, hw, hsame⟩ := member?_memberLiteral v
    rw [List.map_cons, List.filterMap_cons_some hw]
    exact .cons hsame (sameMembers vs)

end Literals

/-! ## Sizes -/

section Sizes

variable {α : Type} {source : String → Option String} {f : Rule → Option α} {rules before after : List Rule}
  {c : Constraints}

/-- The declared limits, in their order. -/
def sizeRules (c : Constraints) : List Rule :=
  (c.minLength.map Rule.minLength).toList ++ (c.maxLength.map Rule.maxLength).toList ++
    (c.minimum.map Rule.minimum).toList ++ (c.maximum.map Rule.maximum).toList ++
    (c.minItems.map Rule.minItems).toList ++ (c.maxItems.map Rule.maxItems).toList

theorem last?_append (rules rules' : List Rule) : last? (rules ++ rules') f = (last? rules' f).or (last? rules f) := by
  rw [last?, last?, last?, List.reverse_append, List.findSome?_append]

theorem last?_toList {β : Type} (o : Option β) (k : β → Rule) :
    last? (o.map k).toList f = o.bind fun b => f (k b) := by
  cases o with
  | none => rfl
  | some b =>
    simp only [last?, Option.map_some, Option.toList_some, List.reverse_singleton, List.findSome?_cons,
      Option.bind_some]
    cases f (k b) <;> rfl

theorem last?_eq_none (h : ∀ r ∈ rules, f r = none) : last? rules f = none := by
  rw [last?, List.findSome?_eq_none_iff]
  exact fun r hr => h r (List.mem_reverse.1 hr)

/-- A rule on presence or on the shape. -/
def IsHead : Rule → Prop
  | .required | .type _ => True
  | _ => False

/-- A rule on members, patterns and contents. -/
def IsContent : Rule → Prop
  | .oneOf _ | .pattern _ | .fields _ | .elements _ _ => True
  | _ => False

theorem isHead_of_isRequired {r : Rule} (h : isRequired r = true) : IsHead r := by
  cases r with
  | required => trivial
  | _ => cases h

/-- A limit is neither. -/
theorem of_mem_sizeRules {r : Rule} (h : r ∈ sizeRules c) : ¬IsHead r ∧ ¬IsContent r := by
  simp only [sizeRules, List.mem_append, Option.mem_toList, Option.map_eq_some_iff] at h
  rcases h with ((((⟨_, -, rfl⟩ | ⟨_, -, rfl⟩) | ⟨_, -, rfl⟩) | ⟨_, -, rfl⟩) | ⟨_, -, rfl⟩) | ⟨_, -, rfl⟩ <;>
    exact ⟨id, id⟩

/-- Limits stand between what comes before and after them. -/
theorem last?_sizeRules (hf : ∀ r, IsHead r ∨ IsContent r → f r = none) (hbefore : ∀ r ∈ before, IsHead r)
    (hafter : ∀ r ∈ after, IsContent r) : last? (before ++ sizeRules c ++ after) f = last? (sizeRules c) f := by
  rw [last?_append, last?_append, last?_eq_none fun r hr => hf r (.inr (hafter r hr)),
    last?_eq_none fun r hr => hf r (.inl (hbefore r hr)), Option.none_or, Option.or_none]

/-- A number of characters or items, as it is said. -/
def counted (n : Option Nat) : Option Expression := n.map fun n : Nat => Expression.int n

/-- The arguments for a range. -/
def rangeMetas (low high : Option Bound) : List Meta :=
  sides (low.map (numberLiteral ·.value)) (high.map (numberLiteral ·.value)) ++
    flagMeta "exclusive_min" (low.any (·.exclusive)) ++ flagMeta "exclusive_max" (high.any (·.exclusive))

/-- The limits that an attribute says are those of the one place in the rules where limits are. -/
theorem sizeMetas_eq (optional : Bool) (hbefore : ∀ r ∈ before, IsHead r)
    (hafter : ∀ r ∈ after, IsContent r) : sizeMetas optional (before ++ sizeRules c ++ after) =
      (if optional then (before.filter isRequired).map fun _ => Meta.path "required" else []) ++
        listUnlessEmpty "length" (sides (counted c.minLength) (counted c.maxLength)) ++
        listUnlessEmpty "range" (rangeMetas c.minimum c.maximum) ++
        listUnlessEmpty "items" (sides (counted c.minItems) (counted c.maxItems)) := by
  have hfilter : (before ++ sizeRules c ++ after).filter isRequired = before.filter isRequired := by
    have hsizes : (sizeRules c).filter isRequired = [] :=
      List.filter_eq_nil_iff.2 fun r hr hrequired => (of_mem_sizeRules hr).1 (isHead_of_isRequired hrequired)
    have hcontents : after.filter isRequired = [] := by
      refine List.filter_eq_nil_iff.2 fun r hr hrequired => ?_
      have hcontent := hafter r hr
      cases r with
      | required => exact hcontent
      | _ => cases hrequired
    rw [List.filter_append, List.filter_append, hsizes, hcontents, List.append_nil, List.append_nil]
  unfold sizeMetas minimum? maximum?
  dsimp only
  rw [hfilter]
  have hnone {α : Type} {f : Rule → Option α} (hf : ∀ r, IsHead r ∨ IsContent r → f r = none) :
      last? (before ++ sizeRules c ++ after) f = last? (sizeRules c) f := last?_sizeRules hf hbefore hafter
  rw [hnone, hnone, hnone, hnone, hnone, hnone]
  · simp only [sizeRules, last?_append, last?_toList]
    simp only [Option.bind_fun_none, Option.none_or, Option.or_none, Option.bind_fun_some]
    have hcounted (n : Option Nat) : (Option.map (fun n => Expression.int n) do let a ← n; pure ↑a) = counted n := by
      cases n <;> rfl
    simp only [hcounted, rangeMetas]
  all_goals
    rintro r (hr | hr) <;> cases r <;> first | rfl | exact hr.elim

@[simp] theorem saidAll_append (optional : Bool) (rules rules' : List Rule) :
    saidAll optional (rules ++ rules') = saidAll optional rules ++ saidAll optional rules' := by
  induction rules with
  | nil => rfl
  | cons r rules ih => simp only [List.cons_append, saidAll, ih, List.append_assoc]

@[simp] theorem ofMetas_append (ms ms' : List Meta) :
    Said.ofMetas source (ms ++ ms') = Said.ofMetas source ms ++ Said.ofMetas source ms' := by
  induction ms with
  | nil => rfl
  | cons m ms ih => simp only [List.cons_append, Said.ofMetas, ih, List.append_assoc]

/-- Presence is said of optional fields, and shapes are not said. -/
theorem ofMetas_required (optional : Bool) (h : ∀ r ∈ before, IsHead r) :
    Said.ofMetas source (if optional then (before.filter isRequired).map fun _ => Meta.path "required" else []) =
      saidAll optional before := by
  induction before with
  | nil => cases optional <;> rfl
  | cons r rules ih =>
    obtain ⟨hr, hrules⟩ := List.forall_mem_cons.1 h
    rw [saidAll, ← ih hrules]
    cases r with
    | required => cases optional <;> rfl
    | type => cases optional <;> rfl
    | _ => exact hr.elim

/-- A list that is left out if it has no items, if it says nothing then. -/
theorem ofMetas_listUnlessEmpty {name : String} (h : Said.ofMeta source (.list name []) = []) (args : List Meta) :
    Said.ofMetas source (listUnlessEmpty name args) = Said.ofMeta source (.list name args) := by
  cases args with
  | nil => exact h.symm
  | cons m ms => exact List.append_nil _

theorem sizes_sides (low high : Nat → Said) (n m : Option Nat) :
    Said.sizes low high (sides (counted n) (counted m)) = (n.map low).toList ++ (m.map high).toList := by
  cases n <;> cases m <;> rfl

theorem argument?_rangeMetas (low high : Option Bound) :
    argument? "min" (rangeMetas low high) = low.map (numberLiteral ·.value) ∧
      argument? "max" (rangeMetas low high) = high.map (numberLiteral ·.value) ∧
      isSet "exclusive_min" (rangeMetas low high) = low.any (·.exclusive) ∧
      isSet "exclusive_max" (rangeMetas low high) = high.any (·.exclusive) := by
  rcases low with _ | ⟨x, _ | _⟩ <;> rcases high with _ | ⟨y, _ | _⟩ <;> exact ⟨rfl, rfl, rfl, rfl⟩

/-- A bound that is said is read back but for the sign of zero. -/
theorem agrees_bound {of : Bound → Said}
    (hof : ∀ {a b : Bound}, SameNumber a.value b.value → a.exclusive = b.exclusive → (of a).Agrees (of b))
    (bound : Option Bound) : List.Forall₂ Said.Agrees
      (((bound.map (numberLiteral ·.value)).bind number?).map fun x => of ⟨x, bound.any (·.exclusive)⟩).toList
      (bound.map of).toList := by
  cases bound with
  | none => exact .nil
  | some b =>
    obtain ⟨y, hy, hsame⟩ := number?_numberLiteral b.value
    simp only [Option.map_some, Option.bind_some, hy, Option.any_some, Option.toList_some]
    exact .cons (hof hsame rfl) .nil

theorem range_rangeMetas (low high : Option Bound) :
    List.Forall₂ Said.Agrees (Said.range (rangeMetas low high))
      ((low.map Said.minimum).toList ++ (high.map Said.maximum).toList) := by
  obtain ⟨hmin, hmax, hlow, hhigh⟩ := argument?_rangeMetas low high
  rw [Said.range, hmin, hmax, hlow, hhigh]
  exact List.rel_append (agrees_bound .minimum low) (agrees_bound .maximum high)

/-- What the declared limits say. -/
theorem saidAll_sizeRules (optional : Bool) : saidAll optional (sizeRules c) =
    ((c.minLength.map Said.minLength).toList ++ (c.maxLength.map Said.maxLength).toList) ++
      ((c.minimum.map Said.minimum).toList ++ (c.maximum.map Said.maximum).toList) ++
      ((c.minItems.map Said.minItems).toList ++ (c.maxItems.map Said.maxItems).toList) := by
  have hsaid {β : Type} (o : Option β) (k : β → Rule) (t : β → Said) (h : ∀ b, said optional (k b) = [t b]) :
      saidAll optional (o.map k).toList = (o.map t).toList := by
    cases o with
    | none => rfl
    | some b => exact (List.append_nil _).trans (h b)
  simp only [sizeRules, saidAll_append, List.append_assoc]
  rw [hsaid _ _ Said.minLength fun _ => rfl, hsaid _ _ Said.maxLength fun _ => rfl,
    hsaid _ _ Said.minimum fun _ => rfl, hsaid _ _ Said.maximum fun _ => rfl,
    hsaid _ _ Said.minItems fun _ => rfl, hsaid _ _ Said.maxItems fun _ => rfl]

theorem Said.agrees_refl : ∀ as : List Said, List.Forall₂ Agrees as as
  | [] => .nil
  | a :: as => .cons (.same a) (agrees_refl as)

/-- **Limits are read back.** -/
theorem ofMetas_sizeMetas (optional : Bool) (hbefore : ∀ r ∈ before, IsHead r) (hafter : ∀ r ∈ after, IsContent r) :
    List.Forall₂ Said.Agrees (Said.ofMetas source (sizeMetas optional (before ++ sizeRules c ++ after)))
      (saidAll optional (before ++ sizeRules c)) := by
  have hlength : Said.ofMeta source (.list "length" (sides (counted c.minLength) (counted c.maxLength))) =
      (c.minLength.map Said.minLength).toList ++ (c.maxLength.map Said.maxLength).toList := sizes_sides ..
  have hrange : List.Forall₂ Said.Agrees (Said.ofMeta source (.list "range" (rangeMetas c.minimum c.maximum)))
      ((c.minimum.map Said.minimum).toList ++ (c.maximum.map Said.maximum).toList) := range_rangeMetas ..
  have hitems : Said.ofMeta source (.list "items" (sides (counted c.minItems) (counted c.maxItems))) =
      (c.minItems.map Said.minItems).toList ++ (c.maxItems.map Said.maxItems).toList := sizes_sides ..
  rw [sizeMetas_eq optional hbefore hafter, saidAll_append, saidAll_sizeRules]
  simp only [ofMetas_append, ofMetas_required optional hbefore]
  rw [ofMetas_listUnlessEmpty rfl, ofMetas_listUnlessEmpty rfl, ofMetas_listUnlessEmpty rfl, hlength, hitems,
    List.append_assoc, List.append_assoc, List.append_assoc _ (_ ++ _) (_ ++ _)]
  exact List.rel_append (Said.agrees_refl _)
    (List.rel_append (Said.agrees_refl _) (List.rel_append hrange (Said.agrees_refl _)))

end Sizes

end Rule

end ApiForge

import ApiForge.Emission.Response
import ApiForge.Proofs.Code.Meaning
import ApiForge.Proofs.Http.Envelope
import ApiForge.Proofs.Naming.Fresh
import ApiForge.Proofs.Run

/-!
# Generated envelopes keep the contract

What the functions that are emitted for the responses of an operation do. The constructors fill exactly one slot and set
the status to match; the function that lists filled slots goes through all of them in ascending order of status.

* `takeResponseNames_names`: every declared status gets a payload, under a name of its own.
* `emitResponses_adds`: what is added to the file.
* `run_reports`: the statements that list filled slots, by induction on the slots.
* `generated_envelope`: the constructors and the listing for every operation, and that the listing agrees with an
  envelope that is built at run time.
-/

namespace ApiForge.Emission

open Code Schema Naming

/-! ## Names of slots -/

theorem slotName_inj {s s' : Nat} (h : slotName s = slotName s') : s = s' :=
  Allocator.toString_inj ((String.append_right_inj _).1 h)

/-- No slot has the name of the status code. -/
theorem slotName_ne_statusCode (s : Nat) : slotName s ≠ "status_code" := by
  intro h
  have hdigits : toString s = "code" := (String.append_right_inj "status_").1 h
  have hs : s = Nat.ofDigitChars 10 "code".toList 0 := by
    rw [← hdigits]
    simp [Nat.ofDigitChars_ten_toDigits]
  rw [hs] at hdigits
  revert hdigits
  decide

/-! ## Names of types -/

theorem takeNames_names : ∀ (names : List (Nat × String)) (s : State), Ends (takeNames names) s
    (fun ps _ => ps.map (·.1) = names.map (·.1) ∧ ∀ p ∈ ps, p.2 ∉ s.names.taken) fun _ _ => False
  | [], _ => ends_pure.2 ⟨rfl, by nofun⟩
  | (status, wanted) :: rest, s => by
    refine ends_bind.2 (ends_modifyGet.2 ?_)
    refine (takeNames_names rest _).bind fun ps _ ⟨hstatuses, hnames⟩ => ends_pure.2 ⟨?_, fun p hp => ?_⟩
    · rw [List.map_cons, List.map_cons, hstatuses]
    · rcases List.mem_cons.1 hp with rfl | hp
      · exact s.names.fresh_not_mem wanted
      · exact fun htaken => hnames p hp (List.mem_cons_of_mem _ htaken)

/-- The payloads are those of the declared statuses, and no payload has the name of the envelope. -/
theorem takeResponseNames_names (op : Operation) (s : State) : Ends (takeResponseNames op) s
    (fun m _ => m.payloads.map (·.1) = op.statuses ∧ ∀ p ∈ m.payloads, p.2 ≠ m.envelope) fun _ _ => False := by
  refine ends_bind.2 (ends_modifyGet.2 ?_)
  refine (takeNames_names _ _).bind fun ps _ ⟨hstatuses, hnames⟩ => ends_pure.2 ⟨?_, fun p hp heq => ?_⟩
  · rw [hstatuses]
    exact (List.map_map ..).trans (List.map_id _)
  · exact hnames p hp (heq ▸ List.mem_cons_self)

/-! ## What is added to the file -/

/-- The declarations of an output. -/
def Output.declarations (out : Output) : List Declaration := out.builder.declarations

theorem declarations_addImport (module item : String) (out : Output) :
    ((addImport module item).run out).2.declarations = out.declarations := by
  show (out.builder.addImport module item).declarations = _
  unfold Builder.addImport
  split <;> rfl

theorem declarations_declare_type (t : TypeDecl) (out : Output) :
    ((declare (.type t)).run out).2.declarations =
      out.declarations ++ if out.builder.isDeclared t.name then [] else [.type t] := by
  show (out.builder.declare (.type t)).2.declarations = _
  unfold Builder.declare
  dsimp only [Declaration.name?]
  split
  · exact (List.append_nil _).symm
  · rfl

theorem declarations_declare_impl (b : ImplBlock) (out : Output) :
    ((declare (.impl b)).run out).2.declarations = out.declarations ++ [.impl b] := rfl

theorem declarations_forM_impl : ∀ (blocks : List ImplBlock) (out : Output),
    ((blocks.forM fun b => declare (.impl b)).run out).2.declarations = out.declarations ++ blocks.map .impl
  | [], out => (List.append_nil _).symm
  | b :: blocks, out => by
    show ((blocks.forM fun b => declare (.impl b)).run ((declare (.impl b)).run out).2).2.declarations = _
    rw [declarations_forM_impl, declarations_declare_impl, List.append_assoc]
    rfl

/-- Payloads add types with their names. -/
theorem emitPayloads_adds : ∀ (payloads : List (ResponseVariant × String)) (out : Output), ∃ types : List TypeDecl,
    ((emitPayloads payloads).run out).2.declarations = out.declarations ++ types.map .type ∧
      ∀ t ∈ types, t.name ∈ payloads.map (·.2)
  | [], out => ⟨[], (List.append_nil _).symm, by nofun⟩
  | (v, name) :: rest, out => by
    let imported := ((addImport "serde" "Serialize").run out).2
    obtain ⟨types, htypes, hnames⟩ := emitPayloads_adds rest ((declare (.type (payloadDecl name v))).run imported).2
    have hrun : ((emitPayloads ((v, name) :: rest)).run out).2.declarations =
        ((emitPayloads rest).run ((declare (.type (payloadDecl name v))).run imported).2).2.declarations := rfl
    rw [hrun, htypes, declarations_declare_type, declarations_addImport, List.append_assoc]
    have hlater : ∀ t ∈ types, t.name ∈ ((v, name) :: rest).map (·.2) := by
      intro t ht
      exact List.mem_cons_of_mem _ (hnames t ht)
    split
    · exact ⟨types, rfl, hlater⟩
    · refine ⟨payloadDecl name v :: types, rfl, fun t ht => ?_⟩
      rcases List.mem_cons.1 ht with rfl | ht
      · exact List.mem_cons_self
      · exact hlater t ht

theorem isDeclared_iff (out : Output) (name : String) :
    out.builder.isDeclared name = true ↔ ∃ d ∈ out.declarations, d.name? = some name :=
  out.indexed.isDeclared_iff

/-- What is added to a file for the responses of an operation: types, then the constructors and the runtime's view of
the envelope. The envelope is among the types unless its name was taken before. -/
theorem emitResponses_adds (root : String) (op : Operation) (m : ResponseModel) (out : Output)
    (hnames : ∀ p ∈ m.payloads, p.2 ≠ m.envelope) : ∃ types : List TypeDecl,
    ((emitResponses root op m).run out).2.declarations = out.declarations ++
      (types.map .type ++ (constructors m).map .impl ++ [.impl (envelopeImpl m)]) ∧
    (out.builder.isDeclared m.envelope = false → envelopeDecl op m ∈ types) := by
  let imported := ((addImport (runtimeModule root) "ResponseEnvelope").run out).2
  let paid := ((emitPayloads (op.responses.zip (m.payloads.map (·.2)))).run imported).2
  let typed := ((declare (.type (envelopeDecl op m))).run paid).2
  let built := (((constructors m).forM fun b => declare (.impl b)).run typed).2
  have hrun : ((emitResponses root op m).run out).2.declarations =
      ((declare (.impl (envelopeImpl m))).run built).2.declarations := rfl
  obtain ⟨types, htypes, htypeNames⟩ := emitPayloads_adds (op.responses.zip (m.payloads.map (·.2))) imported
  rw [hrun, declarations_declare_impl, declarations_forM_impl, declarations_declare_type, htypes,
    declarations_addImport]
  split
  · rename_i htaken
    refine ⟨types, by simp only [List.append_assoc, List.nil_append], fun hnew => ?_⟩
    -- Neither was the name taken before, nor is it that of a payload.
    obtain ⟨d, hd, hname⟩ := (isDeclared_iff paid m.envelope).1 htaken
    rw [htypes, declarations_addImport, List.mem_append] at hd
    rcases hd with hd | hd
    · rw [Bool.eq_false_iff] at hnew
      exact absurd ((isDeclared_iff out m.envelope).2 ⟨d, hd, hname⟩) hnew
    · obtain ⟨t, ht, rfl⟩ := List.mem_map.1 hd
      obtain ⟨⟨v, name⟩, hpayload, hpayloadName⟩ := List.mem_map.1 (htypeNames t ht)
      obtain ⟨p, hp, hpname⟩ := List.mem_map.1 (List.of_mem_zip hpayload).2
      exact absurd (hpname.trans (hpayloadName.trans (Option.some.inj hname))) (hnames p hp)
  · exact ⟨types ++ [envelopeDecl op m], by simp [List.append_assoc], fun _ => by simp⟩

/-! ## The functions of an envelope -/

section Functions

variable {m : ResponseModel} {types : List TypeDecl}

/-- The declarations of an envelope and its functions after those of other types. -/
def envelopeDecls (types : List TypeDecl) (m : ResponseModel) : List Declaration :=
  types.map .type ++ (constructors m).map .impl ++ [.impl (envelopeImpl m)]

/-- The functions of a type are found in the blocks, whatever types are declared before. -/
theorem func?_envelopeDecls (traitName : Option String) (name : String) :
    func? (envelopeDecls types m) m.envelope traitName name =
      (func? ((constructors m).map .impl) m.envelope traitName name).or
        (func? [.impl (envelopeImpl m)] m.envelope traitName name) := by
  have htypes : func? (types.map .type) m.envelope traitName name = none := by
    simp [func?, List.findSome?_map]
  unfold func? at htypes ⊢
  rw [envelopeDecls, List.findSome?_append, List.findSome?_append, htypes, Option.none_or]

theorem func?_constructors_trait (traitName name : String) :
    func? ((constructors m).map .impl) m.envelope (some traitName) name = none := by
  unfold constructors
  split
  · rfl
  · simp [func?]

theorem func?_statusCode :
    func? (envelopeDecls types m) m.envelope (some "ResponseEnvelope") "status_code" = some statusCodeFunc := by
  rw [func?_envelopeDecls, func?_constructors_trait, Option.none_or]
  simp [func?, envelopeImpl, statusCodeFunc]

theorem func?_populated :
    func? (envelopeDecls types m) m.envelope (some "ResponseEnvelope") "populated" =
      some (populatedFunc m.payloads) := by
  rw [func?_envelopeDecls, func?_constructors_trait, Option.none_or]
  simp [func?, envelopeImpl, statusCodeFunc, populatedFunc]

theorem constructors_eq (h : m.payloads ≠ []) : constructors m =
    [⟨m.envelope, none, m.payloads.map fun p => constructor m.envelope m.payloads p.1 p.2⟩] := by
  rw [constructors, if_neg (by simpa using h)]

/-- The constructor of a status is found under the name of its slot. -/
theorem func?_constructor (hdistinct : (m.payloads.map (·.1)).Nodup) {status : Nat} {payload : String}
    (hp : (status, payload) ∈ m.payloads) : func? (envelopeDecls types m) m.envelope none (slotName status) =
      some (constructor m.envelope m.payloads status payload) := by
  have hpairs : m.payloads.Pairwise (·.1 ≠ ·.1) := List.pairwise_map.1 hdistinct
  have hfind : m.payloads.find? (·.1 == status) = some (status, payload) := find?_key (·.1) hpairs hp
  have hname : ((·.name == slotName status) ∘ fun p => constructor m.envelope m.payloads p.1 p.2) =
      fun p : Nat × String => p.1 == status := by
    funext p
    show (slotName p.1 == slotName status) = (p.1 == status)
    rw [Bool.eq_iff_iff, beq_iff_eq, beq_iff_eq]
    exact ⟨slotName_inj, congrArg slotName⟩
  have hfuncs : (m.payloads.map fun p => constructor m.envelope m.payloads p.1 p.2).find?
      (·.name == slotName status) = some (constructor m.envelope m.payloads status payload) := by
    rw [List.find?_map, hname, hfind]
    rfl
  rw [func?_envelopeDecls, constructors_eq (List.ne_nil_of_mem hp)]
  simp [func?, hfuncs]

/-! ## What the functions do -/

variable {e : Value}

/-- The emitted status code is the field of that name. -/
theorem callMethod_statusCode :
    callMethod (envelopeDecls types m) m.envelope "ResponseEnvelope" "status_code" e = e.field? "status_code" := by
  rw [callMethod, func?_statusCode, Option.bind_eq_bind, Option.bind_some, Func.call_method _ rfl rfl]
  cases h : e.field? "status_code" <;> simp [statusCodeFunc, Statement.run, h]

/-- The statement that lists a status if its slot is filled. -/
def report (status : Nat) : Statement :=
  .cond (.method (.field (.path "self") (slotName status)) "is_some" [])
    [.expr (.method (.path "populated") "push" [.int status])] none

theorem populatedBody_eq (payloads : List (Nat × String)) (h : payloads ≠ []) : populatedBody payloads =
    .bind "populated" true (.call "Vec::new" []) ::
      ((payloads.map (·.1)).map report ++ [.tail (.path "populated")]) := by
  rw [populatedBody, if_neg (by simpa using h), List.map_map]
  rfl

/-- The locals while statuses are listed. -/
def listing (e : Value) (statuses : List Nat) : Locals :=
  [⟨"populated", true, .vec (statuses.map .ofNat)⟩, ⟨"self", false, e⟩]

/-- A slot holds an optional value. -/
def HasSlot (e : Value) (status : Nat) : Prop :=
  e.field? (slotName status) = some .absent ∨ ∃ payload, e.field? (slotName status) = some (.present payload)

/-- The statement for a slot adds its status exactly if the slot is filled. -/
theorem exec_report {status : Nat} (h : HasSlot e status) (type : String) (statuses : List Nat) :
    (report status).exec type (listing e statuses) =
      some (listing e (statuses ++ if e.fills (slotName status) then [status] else [])) := by
  rcases h with h | ⟨payload, h⟩
  · simp [report, listing, h, Value.fills]
  · simp [report, listing, h, Value.fills, Statement.run, Expression.int, Value.ofNat]

/-- The statements for all slots list those that are filled, after the statuses listed so far. -/
theorem run_reports (type : String) : ∀ slots statuses : List Nat, (∀ s ∈ slots, HasSlot e s) →
    (Statement.run type (slots.map report ++ [.tail (.path "populated")]) (listing e statuses)).map (·.1) =
      some (.vec ((statuses ++ slots.filter fun s => e.fills (slotName s)).map .ofNat))
  | [], statuses, _ => by simp [listing, Statement.run]
  | s :: slots, statuses, h => by
    obtain ⟨hs, hslots⟩ := List.forall_mem_cons.1 h
    have hrest : slots.map report ++ [.tail (.path "populated")] ≠ [] := by simp
    rw [List.map_cons, List.cons_append, Statement.run_cons type _ hrest, exec_report hs, Option.bind_some,
      run_reports type slots _ hslots, List.filter_cons, List.append_assoc]
    split <;> rfl

/-- The emitted listing gives the statuses of filled slots, in the order of the slots. -/
theorem callMethod_populated (h : ∀ s ∈ m.payloads.map (·.1), HasSlot e s) :
    callMethod (envelopeDecls types m) m.envelope "ResponseEnvelope" "populated" e =
      some (.vec (((m.payloads.map (·.1)).filter fun s => e.fills (slotName s)).map .ofNat)) := by
  rw [callMethod, func?_populated, Option.bind_eq_bind, Option.bind_some, Func.call_method _ rfl rfl, populatedFunc]
  by_cases hempty : m.payloads = []
  · simp [populatedBody, Statement.run, hempty]
  · have hrest : (m.payloads.map (·.1)).map report ++ [.tail (.path "populated")] ≠ [] := by simp
    rw [populatedBody_eq _ hempty, Statement.run_cons _ _ hrest]
    exact run_reports m.envelope (m.payloads.map (·.1)) [] h

/-! ## Constructed envelopes -/

/-- What the slot of `s` holds when that of `status` alone is filled. -/
def slotValue (status : Nat) (payload : Value) (s : Nat) : Value :=
  if s == status then .present payload else .absent

/-- The envelope with the slot of one status filled. -/
def single (m : ResponseModel) (status : Nat) (payload : Value) : Value :=
  .record m.envelope (("status_code", .ofNat status) ::
    m.payloads.map fun p => (slotName p.1, slotValue status payload p.1))

/-- The slots in the literal of a constructor. -/
def slotFields (payloads : List (Nat × String)) (status : Nat) : List (String × Expression) :=
  payloads.map fun (other, _) =>
    (slotName other, if other == status then .call "Some" [.path "payload"] else .path "None")

theorem body_constructor (envelope : String) (payloads : List (Nat × String)) (status : Nat) (payload : String) :
    (constructor envelope payloads status payload).body =
      [.tail (.record "Self" (("status_code", .int status) :: slotFields payloads status))] := rfl

theorem evalFields_slotFields (type : String) (status : Nat) (payload : Value) : ∀ payloads : List (Nat × String),
    Expression.evalFields type (slotFields payloads status) [⟨"payload", false, payload⟩] =
      some (payloads.map fun p => (slotName p.1, slotValue status payload p.1), [⟨"payload", false, payload⟩])
  | [] => rfl
  | (other, _) :: rest => by
    have hslot : Expression.eval type
        (if other == status then .call "Some" [.path "payload"] else .path "None") [⟨"payload", false, payload⟩] =
        some (slotValue status payload other, [⟨"payload", false, payload⟩]) := by
      by_cases h : other = status <;> simp [slotValue, h]
    have hrest := evalFields_slotFields type status payload rest
    unfold slotFields at hrest ⊢
    simp only [List.map_cons, Expression.evalFields, hslot, hrest, Option.bind_eq_bind, Option.bind_some]
    rfl

/-- The names of the fields of an envelope. -/
def fieldNames (m : ResponseModel) : List String := "status_code" :: (m.payloads.map (·.1)).map slotName

theorem nodup_fieldNames (hdistinct : (m.payloads.map (·.1)).Nodup) : (fieldNames m).Nodup := by
  refine List.nodup_cons.2 ⟨fun hmem => ?_, hdistinct.map fun _ _ h => slotName_inj h⟩
  obtain ⟨s, -, hs⟩ := List.mem_map.1 hmem
  exact slotName_ne_statusCode s hs

/-- The constructor of a status fills its slot alone. -/
theorem callFunc_constructor (hdistinct : (m.payloads.map (·.1)).Nodup) {status : Nat}
    (hstatus : status ∈ m.payloads.map (·.1)) (payload : Value) :
    callFunc (envelopeDecls types m) m.envelope (slotName status) [payload] = some (single m status payload) := by
  obtain ⟨⟨status, name⟩, hp, rfl⟩ := List.mem_map.1 hstatus
  have hnames : ((("status_code", .int status) :: slotFields m.payloads status).map (·.1)).Nodup := by
    simpa [fieldNames, slotFields, Function.comp_def] using nodup_fieldNames hdistinct
  have hliteral : Expression.evalFields m.envelope (("status_code", .int status) :: slotFields m.payloads status)
      [⟨"payload", false, payload⟩] = some (("status_code", .ofNat status) ::
        m.payloads.map fun p => (slotName p.1, slotValue status payload p.1), [⟨"payload", false, payload⟩]) := by
    rw [Expression.evalFields, Expression.int, Expression.eval, Option.bind_eq_bind, Option.bind_some]
    simp only [evalFields_slotFields]
    rfl
  rw [callFunc, func?_constructor hdistinct hp, Option.bind_eq_bind, Option.bind_some, Func.call_one _ rfl rfl,
    body_constructor, Statement.run, Expression.eval_record _ _ hnames hliteral]
  rfl

theorem fields_envelopeDecl (op : Operation) : (envelopeDecl op m).fields.map (·.name) = fieldNames m := by
  simp [envelopeDecl, TypeDecl.fields, fieldNames]

/-- A slot of an instance holds an optional value. -/
theorem hasSlot_of_instance {op : Operation} (he : e.InstanceOf (envelopeDecl op m))
    (hdistinct : (m.payloads.map (·.1)).Nodup) {s : Nat} (hs : s ∈ m.payloads.map (·.1)) : HasSlot e s := by
  obtain ⟨⟨s, payload⟩, hp, rfl⟩ := List.mem_map.1 hs
  have hfield : ({ name := slotName s, type := .option (.named payload) } : Code.Field) ∈ (envelopeDecl op m).fields :=
    List.mem_cons_of_mem _ (List.mem_map.2 ⟨_, hp, rfl⟩)
  obtain ⟨v, hv, hoption⟩ := he.field? (by rw [fields_envelopeDecl]; exact nodup_fieldNames hdistinct) hfield
  rcases hoption with rfl | ⟨w, rfl⟩
  · exact .inl hv
  · exact .inr ⟨w, hv⟩

/-- A constructed envelope is an instance of the declared one. -/
theorem single_instance (op : Operation) (status : Nat) (payload : Value) :
    (single m status payload).InstanceOf (envelopeDecl op m) := by
  refine ⟨_, rfl, .cons ⟨rfl, rfl⟩ ?_⟩
  rw [List.forall₂_map_left_iff, List.forall₂_map_right_iff, List.forall₂_same]
  refine fun p _ => ⟨rfl, ?_⟩
  show slotValue status payload p.1 = .absent ∨ ∃ w, slotValue status payload p.1 = .present w
  unfold slotValue
  split
  · exact .inr ⟨payload, rfl⟩
  · exact .inl rfl

theorem lookup_slot (value : Nat → Value) {s : Nat} : ∀ {payloads : List (Nat × String)}, s ∈ payloads.map (·.1) →
    (payloads.map fun p => (slotName p.1, value p.1)).lookup (slotName s) = some (value s)
  | (other, _) :: rest, h => by
    rw [List.map_cons, List.lookup_cons]
    by_cases hs : s = other
    · rw [hs, beq_self_eq_true]
    · rw [beq_false_of_ne fun heq => hs (slotName_inj heq)]
      exact lookup_slot value ((List.mem_cons.1 h).resolve_left hs)

theorem field?_single {status s : Nat} {payload : Value} (hs : s ∈ m.payloads.map (·.1)) :
    (single m status payload).field? (slotName s) = some (slotValue status payload s) := by
  rw [single, Value.field?, List.lookup_cons, beq_false_of_ne (slotName_ne_statusCode s)]
  exact lookup_slot (slotValue status payload) hs

/-- Of the slots of a constructed envelope, that of its status is filled. -/
theorem fills_single {status s : Nat} {payload : Value} (hs : s ∈ m.payloads.map (·.1)) :
    (single m status payload).fills (slotName s) = (s == status) := by
  rw [Value.fills, field?_single hs]
  by_cases h : s = status <;> simp [slotValue, h]

/-- The only status that a constructed envelope lists is its own. -/
theorem filter_fills_single (hdistinct : (m.payloads.map (·.1)).Nodup) {status : Nat}
    (hstatus : status ∈ m.payloads.map (·.1)) (payload : Value) :
    ((m.payloads.map (·.1)).filter fun s => (single m status payload).fills (slotName s)) = [status] := by
  rw [List.filter_congr fun s hs => fills_single hs, List.filter_beq, List.count_eq_one_of_mem hdistinct hstatus]
  rfl

end Functions

/-- What the runtime's check of the contract says about an envelope, by what its functions give. -/
def checkEnvelope (decls : List Declaration) (type : String) (e : Value) :
    Option (Except Http.ContractViolation Nat) := do
  let status ← (← callMethod decls type "ResponseEnvelope" "status_code" e).nat?
  let populated ← (← callMethod decls type "ResponseEnvelope" "populated" e).nats?
  return Http.checkContract status populated

/-- **Generated envelopes keep the contract.** Take any operation with statuses in ascending order, each once, and what
is added to a file for its responses, whatever names are taken and whatever the file holds before. The constructor of a
status gives an envelope with this status that lists this status alone and passes the runtime's check. Any envelope
lists the statuses of its filled slots in ascending order, as one that is built at run time does when the same slots are
filled. -/
theorem generated_envelope (op : Operation) (hstatuses : op.statuses.Pairwise (· < ·)) (s : State) (root : String)
    (out : Output) : ∃ m s' added, (takeResponseNames op).run s = .ok m s' ∧
    ((emitResponses root op m).run out).2.declarations = out.declarations ++ added ∧
    (out.builder.isDeclared m.envelope = false → .type (envelopeDecl op m) ∈ added) ∧
    (∀ status ∈ op.statuses, ∀ payload, ∃ e,
      callFunc added m.envelope (slotName status) [payload] = some e ∧
      e.InstanceOf (envelopeDecl op m) ∧ e.field? (slotName status) = some (.present payload) ∧
      callMethod added m.envelope "ResponseEnvelope" "status_code" e = some (.ofNat status) ∧
      callMethod added m.envelope "ResponseEnvelope" "populated" e = some (.vec [.ofNat status]) ∧
      checkEnvelope added m.envelope e = some (.ok status)) ∧
    ∀ e, e.InstanceOf (envelopeDecl op m) →
      callMethod added m.envelope "ResponseEnvelope" "populated" e =
        some (.vec ((op.statuses.filter fun status => e.fills (slotName status)).map .ofNat)) ∧
      ∀ code fills, (∀ status ∈ op.statuses, e.fills (slotName status) = true ↔ status ∈ fills.map (·.1)) →
        callMethod added m.envelope "ResponseEnvelope" "populated" e =
          some (.vec (((Http.Envelope.empty op.statuses code).fill fills).populated.map .ofNat)) := by
  obtain ⟨m, s', hrun, hpayloads, hnames⟩ := (takeResponseNames_names op s).exists_ok
  obtain ⟨types, hadded, htype⟩ := emitResponses_adds root op m out hnames
  have hdistinct : (m.payloads.map (·.1)).Nodup := by
    rw [hpayloads]
    exact hstatuses.imp Nat.ne_of_lt
  have hlisted : ∀ e, e.InstanceOf (envelopeDecl op m) →
      callMethod (envelopeDecls types m) m.envelope "ResponseEnvelope" "populated" e =
        some (.vec ((op.statuses.filter fun status => e.fills (slotName status)).map .ofNat)) := by
    intro e he
    rw [callMethod_populated fun s hs => hasSlot_of_instance he hdistinct hs, hpayloads]
  refine ⟨m, s', envelopeDecls types m, hrun, hadded, fun hnew => ?_, fun status hstatus payload => ?_, fun e he => ?_⟩
  · simpa [envelopeDecls] using htype hnew
  · have hmem : status ∈ m.payloads.map (·.1) := hpayloads ▸ hstatus
    have hinstance := single_instance (m := m) op status payload
    have hcode : callMethod (envelopeDecls types m) m.envelope "ResponseEnvelope" "status_code"
        (single m status payload) = some (.ofNat status) := callMethod_statusCode
    have hpopulated : callMethod (envelopeDecls types m) m.envelope "ResponseEnvelope" "populated"
        (single m status payload) = some (.vec [.ofNat status]) := by
      rw [hlisted _ hinstance, ← hpayloads, filter_fills_single hdistinct hmem]
      rfl
    refine ⟨single m status payload, callFunc_constructor hdistinct hmem payload, hinstance, ?_, hcode, hpopulated, ?_⟩
    · rw [field?_single hmem, slotValue, beq_self_eq_true, if_pos rfl]
    · simp [checkEnvelope, hcode, hpopulated, Value.nats?, Value.nat?, Value.ofNat]
  · refine ⟨hlisted e he, fun code fills hsame => ?_⟩
    rw [hlisted e he, Http.Envelope.populated_fill_empty hstatuses]
    have hfilter : (op.statuses.filter fun status => e.fills (slotName status)) =
        op.statuses.filter (· ∈ fills.map (·.1)) := by
      refine List.filter_congr fun status hstatus => ?_
      rw [Bool.eq_iff_iff, decide_eq_true_iff]
      exact hsame status hstatus
    rw [hfilter]

/-- An operation with two declared statuses. -/
def petOperation : Operation where
  operationId := "get_pet"
  method := "GET"
  route := ⟨"/pet", [.literal "pet"]⟩
  summary := none
  request := {}
  responses := [⟨200, none, none, none, none⟩, ⟨404, none, none, none, none⟩]

theorem generated_envelope_pet : petOperation.statuses.Pairwise (· < ·) ∧ ∃ m s' added e,
    (takeResponseNames petOperation).run {} = .ok m s' ∧
    ((emitResponses "runtime" petOperation m).run { builder := { name := "pets" } }).2.declarations = added ∧
    .type (envelopeDecl petOperation m) ∈ added ∧
    callFunc added m.envelope "status_404" [.unit] = some e ∧
    callMethod added m.envelope "ResponseEnvelope" "populated" e = some (.vec [.ofNat 404]) ∧
    checkEnvelope added m.envelope e = some (.ok 404) := by
  have hstatuses : petOperation.statuses.Pairwise (· < ·) := by decide
  obtain ⟨m, s', added, hrun, hadded, htype, hconstructors, -⟩ :=
    generated_envelope petOperation hstatuses {} "runtime" { builder := { name := "pets" } }
  obtain ⟨e, hcall, -, -, -, hpopulated, hcheck⟩ := hconstructors 404 (by decide) .unit
  exact ⟨hstatuses, m, s', added, e, hrun, hadded, htype rfl, hcall, hpopulated, hcheck⟩

end ApiForge.Emission

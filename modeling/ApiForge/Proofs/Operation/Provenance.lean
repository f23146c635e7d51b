import ApiForge.Compilation
import ApiForge.Proofs.Run
import Mathlib.Data.List.Forall2

/-!
# Where operations come from

Operations are collected from path items and then resolved, one by one and in order.

* `operationsOf_forall`: what holds of every operation that is read from a path item with a template holds of all
  collected operations.
* `RawOperation.Resolved raw op`: a resolved operation keeps identity, method and template, and the record of a location
  has the declared parameters as its fields, under their names and required as declared.
* `compile_resolved`: the operations of a compilation are the collected ones, resolved in order.
* `compile_forall`: both together, for a single operation of a compilation.
-/

namespace ApiForge

open Schema

/-! ## Collecting -/

namespace Extract

variable {d : Description} {P : RawOperation → Prop}

/-- What holds of every operation that is read from a path item. -/
def Gives (d : Description) (route : Route.Template) (P : RawOperation → Prop) : Prop :=
  ∀ item members method id notes,
    Ends (operation d route item members method id) notes (fun op _ => P op) fun _ _ => True

theorem itemOperations_forall {route : Route.Template} (hroute : Gives d route P) (item : Json.Members) :
    ∀ (entries : Json.Members) (acc : List RawOperation) (notes : List Diagnostic), (∀ op ∈ acc, P op) →
      Ends (itemOperations d route item entries acc) notes (fun ops _ => ∀ op ∈ ops, P op) fun _ _ => True
  | [], _, _, h => ends_pure.2 h
  | (key, v) :: rest, acc, notes, h => by
    unfold itemOperations
    split
    · refine (Ends.trivial _ _).bind fun id _ _ => ?_
      split
      · trivial
      · refine (hroute item _ _ id _).bind fun op _ hop => ?_
        refine itemOperations_forall hroute item rest _ _ fun op' hop' => ?_
        rcases List.mem_append.1 hop' with hop' | hop'
        · exact h op' hop'
        · rw [List.mem_singleton.1 hop']
          exact hop
    · exact itemOperations_forall hroute item rest acc notes h

theorem pathOperations_forall (hP : ∀ path route, Route.Template.parse path = .ok route → Gives d route P) :
    ∀ (entries : Json.Members) (acc : List RawOperation) (notes : List Diagnostic), (∀ op ∈ acc, P op) →
      Ends (pathOperations d entries acc) notes (fun ops _ => ∀ op ∈ ops, P op) fun _ _ => True
  | [], _, _, h => ends_pure.2 h
  | (path, .obj item) :: rest, acc, notes, h => by
    unfold pathOperations
    split
    · exact (Ends.trivial _ _).bind fun _ _ _ => pathOperations_forall hP rest acc _ h
    · split
      · trivial
      · rename_i route hroute
        exact (itemOperations_forall (hP path route hroute) item item acc notes h).bind fun ops _ hops =>
          pathOperations_forall hP rest ops _ hops
  | (_, .null) :: rest, acc, notes, h | (_, .bool _) :: rest, acc, notes, h | (_, .num _) :: rest, acc, notes, h
  | (_, .str _) :: rest, acc, notes, h | (_, .arr _) :: rest, acc, notes, h => pathOperations_forall hP rest acc notes h

end Extract

/-- What holds of every operation that is read from a path item holds of all collected operations. -/
theorem operationsOf_forall {d : Description} {P : RawOperation → Prop}
    (hP : ∀ path route, Route.Template.parse path = .ok route → Extract.Gives d route P) (notes : List Diagnostic) :
    Ends (operationsOf d) notes (fun ops _ => ∀ op ∈ ops, P op) fun _ _ => True :=
  Extract.pathOperations_forall hP _ [] notes fun _ h => by cases h

/-! ## Resolving -/

namespace Schema

variable {env : Env} {s : State}

/-- The key of a field, and whether it is required. -/
def Field.demand (f : Field) : String × Bool := (f.wireKey, f.required)

theorem buildFields_demands {build : Build} (ownerName : String) (c : Context) : ∀ (entries : List Entry)
    (taken : List String) (s : State), Ends (buildFields build ownerName c taken entries) s
      (fun fields _ => fields.map Field.demand = entries.map fun e => (e.key, e.required)) fun _ _ => True
  | [], _, _ => ends_pure.2 rfl
  | e :: es, taken, s => by
    refine (Ends.trivial _ _).bind fun type _ _ => ?_
    refine (Ends.trivial _ _).bind fun rules _ _ => ?_
    refine (buildFields_demands ownerName c es _ _).bind fun fields _ hfields => ends_pure.2 ?_
    rw [List.map_cons, hfields]
    rfl

theorem recordNode_fields (name : String) (fields : List Field) (nullable : Bool) (description : Option String) :
    (recordNode name fields nullable description).fields = fields := by
  simp [recordNode, Node.fields, Node.target]

/-- A record of loose members has them as its fields, in order. -/
theorem synthesizeObject_demands (hint : String) (members : List Member) (presence : Presence) (owner : String) :
    Ends (synthesizeObject env hint members presence owner) s
      (fun node _ => node.fields.map Field.demand = members.map fun m => (m.key, m.required)) fun _ _ => True := by
  refine (Ends.trivial _ _).bind fun name _ _ => ?_
  refine (Ends.trivial _ _).bind fun slot _ _ => ?_
  refine (buildFields_demands name _ _ _ _).bind fun fields _ hfields => ?_
  refine (Ends.trivial _ _).bind fun _ _ _ => ends_pure.2 ?_
  rw [recordNode_fields, hfields, List.map_map]
  rfl

end Schema

namespace RawOperation

/-- The record of members: there is none without members, and otherwise the members are its fields. -/
def PartOf (members : List Member) : Option Node → Prop
  | none => members = []
  | some node => members ≠ [] ∧ node.fields.map Field.demand = members.map fun m => (m.key, m.required)

/-- What an operation keeps when it is resolved. -/
structure Resolved (raw : RawOperation) (op : Operation) : Prop where
  operationId : op.operationId = raw.operationId
  method : op.method = raw.method
  route : op.route = raw.route
  part : ∀ location, PartOf (raw.membersIn location) (op.request.part? location)

variable {env : Env} {s : State}

theorem resolvePart_partOf (raw : RawOperation) (base owner : String) (location : Location) :
    Ends (raw.resolvePart env base owner location) s (fun part _ => PartOf (raw.membersIn location) part)
      fun _ _ => True := by
  unfold resolvePart
  dsimp only
  split
  · rename_i hempty
    exact ends_pure.2 (List.isEmpty_iff.1 hempty)
  · rename_i hsome
    refine (synthesizeObject_demands _ _ _ owner).bind fun node _ hnode => ends_pure.2 ⟨?_, hnode⟩
    exact fun hnil => hsome (List.isEmpty_iff.2 hnil)

theorem resolve_resolved (raw : RawOperation) :
    Ends (raw.resolve env) s (fun op _ => raw.Resolved op) fun _ _ => True := by
  refine (raw.resolvePart_partOf _ _ .path).bind fun path _ hpath => ?_
  refine (raw.resolvePart_partOf _ _ .query).bind fun query _ hquery => ?_
  refine (raw.resolvePart_partOf _ _ .header).bind fun headers _ hheaders => ?_
  refine (raw.resolvePart_partOf _ _ .cookie).bind fun cookies _ hcookies => ?_
  refine (Ends.trivial _ _).bind fun body _ _ => ?_
  refine (Ends.trivial _ _).bind fun responses _ _ => ends_pure.2 ⟨rfl, rfl, rfl, fun location => ?_⟩
  cases location with
  | path => exact hpath
  | query => exact hquery
  | header => exact hheaders
  | cookie => exact hcookies

end RawOperation

namespace Compilation

variable {env : Env} {s : State}

theorem compileOperation_resolved (root : String) (p : Progress) (raw : RawOperation) :
    Ends (compileOperation env root p raw) s (fun p' _ => ∃ op, raw.Resolved op ∧ p'.operations = p.operations ++ [op])
      fun _ _ => True := by
  refine (Ends.trivial _ _).bind fun _ _ _ => ?_
  refine raw.resolve_resolved.bind fun op _ hop => ?_
  refine (Ends.trivial _ _).bind fun _ _ _ => ?_
  refine (Ends.trivial _ _).bind fun _ _ _ => ?_
  exact (Ends.trivial _ _).bind fun _ _ _ => ends_pure.2 ⟨op, hop, rfl⟩

theorem compileOperations_resolved (root : String) : ∀ (raws : List RawOperation) (p : Progress) (s : State),
    Ends (compileOperations env root raws p) s (fun p' _ => ∃ ops, List.Forall₂ RawOperation.Resolved raws ops ∧
      p'.operations = p.operations ++ ops) fun _ _ => True
  | [], _, _ => ends_pure.2 ⟨[], .nil, (List.append_nil _).symm⟩
  | raw :: raws, p, s => by
    refine (compileOperation_resolved root p raw).bind fun p₁ s₁ ⟨op, hop, hp₁⟩ => ?_
    refine (compileOperations_resolved root raws p₁ s₁).mono (fun p₂ _ ⟨ops, hops, hp₂⟩ => ?_) fun _ _ h => h
    exact ⟨op :: ops, .cons hop hops, by rw [hp₂, hp₁, List.append_assoc, List.singleton_append]⟩

theorem assemble_resolved (root : String) (raws : List RawOperation) :
    Ends (assemble env root raws) s (fun p _ => List.Forall₂ RawOperation.Resolved raws p.operations)
      fun _ _ => True := by
  refine (Ends.trivial _ _).bind fun _ _ _ => ?_
  refine (Ends.trivial _ _).bind fun _ _ _ => ?_
  refine (compileOperations_resolved root raws _ _).mono (fun p _ ⟨ops, hops, hp⟩ => ?_) fun _ _ h => h
  rw [hp]
  exact hops

end Compilation

/-! ## Compilations -/

section Compile

variable {config : Config} {d : Description} {c : Compilation}

/-- **The operations of a compilation** are the collected ones, resolved in order, and its routes are theirs. -/
theorem compile_resolved (h : compile config d = .ok c) :
    ∃ raws notes, (operationsOf d).run [] = .ok raws notes ∧ List.Forall₂ RawOperation.Resolved raws c.operations ∧
      c.routes = ⟨c.operations.map Compilation.routeOf, d.basePath⟩ := by
  unfold compile at h
  cases hops : (operationsOf d).run [] with
  | error e notes => rw [hops] at h; cases h
  | ok raws notes =>
    rw [hops] at h
    dsimp only at h
    cases hrun : (Compilation.assemble ⟨d, config.presence⟩ config.importRoot raws).run
        (State.initial ⟨d, config.presence⟩) with
    | error e s => rw [hrun] at h; cases h
    | ok p s =>
      have hresolved := (Compilation.assemble_resolved config.importRoot raws).of_ok hrun
      rw [hrun] at h
      cases h
      exact ⟨raws, notes, rfl, hresolved, rfl⟩

/-- A view of a compilation comes from a compilation. -/
theorem exists_compiled {α : Type} {view : Compilation → α} {a : α}
    (h : (compile config d).toOption.map view = some a) : ∃ c, compile config d = .ok c ∧ view c = a := by
  cases hc : compile config d with
  | error e => rw [hc] at h; cases h
  | ok c => rw [hc] at h; exact ⟨c, rfl, Option.some.inj h⟩

/-- An operation of a compilation is resolved from a collected one. -/
theorem compile_source (h : compile config d = .ok c) {op : Operation} (hop : op ∈ c.operations) :
    ∃ raws notes, (operationsOf d).run [] = .ok raws notes ∧ ∃ raw ∈ raws, raw.Resolved op := by
  obtain ⟨raws, notes, hraws, hresolved, -⟩ := compile_resolved h
  obtain ⟨i, hi, rfl⟩ := List.getElem_of_mem hop
  have hi' : i < raws.length := hresolved.length_eq ▸ hi
  exact ⟨raws, notes, hraws, raws[i], List.getElem_mem hi', hresolved.get hi' hi⟩

/-- What holds of every operation that is read from a path item holds of what an operation is resolved from. -/
theorem compile_forall {P : RawOperation → Prop} (h : compile config d = .ok c)
    (hP : ∀ path route, Route.Template.parse path = .ok route → Extract.Gives d route P) {op : Operation}
    (hop : op ∈ c.operations) : ∃ raw, raw.Resolved op ∧ P raw := by
  obtain ⟨raws, notes, hraws, raw, hraw, hresolved⟩ := compile_source h hop
  have hall := (operationsOf_forall hP []).of_ok hraws
  exact ⟨raw, hresolved, hall raw hraw⟩

end Compile

end ApiForge

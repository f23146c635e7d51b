import ApiForge.Proofs.Operation.Provenance

/-!
# Identities of operations

The operations of a compilation have identities of their own, and its routes are those of its operations. Hence a route
that matches leads to exactly one operation.

* `operationsOf_distinct`: the collected operations have distinct identities.
* `compile_operations`: so have the operations of a compilation, and its routes are theirs.
-/

namespace ApiForge

/-! ## Collecting -/

namespace Extract

variable {d : Description} {route : Route.Template} {notes : List Diagnostic}

theorem operation_id (item members : Json.Members) (method id : String) :
    Ends (operation d route item members method id) notes (fun op _ => op.operationId = id) fun _ _ => True := by
  refine (Ends.trivial _ _).bind fun _ _ _ => ?_
  refine (Ends.trivial _ _).bind fun _ _ _ => ?_
  refine (Ends.trivial _ _).bind fun _ _ _ => ?_
  refine (Ends.trivial _ _).bind fun _ _ _ => ?_
  exact (Ends.trivial _ _).bind fun _ _ _ => ends_pure.2 rfl

/-- Operations with distinct identities. -/
def Distinct (ops : List RawOperation) : Prop := (ops.map (·.operationId)).Nodup

theorem Distinct.append {ops : List RawOperation} {op : RawOperation} (h : Distinct ops)
    (hnew : ops.any (·.operationId == op.operationId) = false) : Distinct (ops ++ [op]) := by
  rw [Distinct, List.map_append, List.map_singleton, List.nodup_append]
  refine ⟨h, List.pairwise_singleton _ _, fun a ha b hb hab => ?_⟩
  obtain ⟨op', hop', rfl⟩ := List.mem_map.1 ha
  rw [List.mem_singleton.1 hb] at hab
  exact List.any_eq_false.1 hnew op' hop' (beq_iff_eq.2 hab)

theorem itemOperations_distinct (item : Json.Members) : ∀ (entries : Json.Members) (acc : List RawOperation)
    (notes : List Diagnostic), Distinct acc →
      Ends (itemOperations d route item entries acc) notes (fun ops _ => Distinct ops) fun _ _ => True
  | [], _, _, h => ends_pure.2 h
  | (key, v) :: rest, acc, notes, h => by
    unfold itemOperations
    split
    · refine (Ends.trivial _ _).bind fun id _ _ => ?_
      split
      · trivial
      · rename_i hnew
        refine (operation_id item _ _ id).bind fun op _ hop => ?_
        refine itemOperations_distinct item rest _ _ (h.append ?_)
        rw [hop]
        simpa using hnew
    · exact itemOperations_distinct item rest acc notes h

theorem pathOperations_distinct : ∀ (entries : Json.Members) (acc : List RawOperation) (notes : List Diagnostic),
    Distinct acc → Ends (pathOperations d entries acc) notes (fun ops _ => Distinct ops) fun _ _ => True
  | [], _, _, h => ends_pure.2 h
  | (path, .obj item) :: rest, acc, notes, h => by
    unfold pathOperations
    split
    · exact (Ends.trivial _ _).bind fun _ _ _ => pathOperations_distinct rest acc _ h
    · split
      · trivial
      · exact (itemOperations_distinct item item acc notes h).bind fun ops _ hops =>
          pathOperations_distinct rest ops _ hops
  | (_, .null) :: rest, acc, notes, h | (_, .bool _) :: rest, acc, notes, h | (_, .num _) :: rest, acc, notes, h
  | (_, .str _) :: rest, acc, notes, h | (_, .arr _) :: rest, acc, notes, h => pathOperations_distinct rest acc notes h

end Extract

/-- The collected operations have distinct identities. -/
theorem operationsOf_distinct (d : Description) (notes : List Diagnostic) :
    Ends (operationsOf d) notes (fun ops _ => Extract.Distinct ops) fun _ _ => True :=
  Extract.pathOperations_distinct _ [] notes List.nodup_nil

/-! ## Compilations -/

/-- **The operations of a compilation** have distinct identities, and its routes are those of its operations. -/
theorem compile_operations {config : Config} {d : Description} {c : Compilation} (h : compile config d = .ok c) :
    (c.operations.map (·.operationId)).Nodup ∧ c.routes = ⟨c.operations.map Compilation.routeOf, d.basePath⟩ := by
  obtain ⟨raws, notes, hraws, hresolved, hroutes⟩ := compile_resolved h
  have hids : raws.map (·.operationId) = c.operations.map (·.operationId) := by
    rw [← List.forall₂_eq_eq_eq, List.forall₂_map_left_iff, List.forall₂_map_right_iff]
    exact hresolved.imp fun _ _ hop => hop.operationId.symm
  have hdistinct := (operationsOf_distinct d []).of_ok hraws
  exact ⟨hids ▸ hdistinct, hroutes⟩

end ApiForge

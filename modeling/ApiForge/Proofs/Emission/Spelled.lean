import ApiForge.Proofs.Emission.Completeness
import ApiForge.Proofs.Schema.Spelling

/-!
# Properties of all declarations

A property that the constants and functions of all files have, and the types too, is a property of all declarations.

* `DeclarationClass P`: constants and functions of files have the property `P`, and types have it anyway.
* `assemble_spells`: assembling a file keeps states spelled, and all its declarations have such a property.
* `Run.spelled`: what this gives for a compilation.
-/

namespace ApiForge.Emission

open Code Schema Naming Compilation

/-- A property of all declarations in files. It asks nothing about types. -/
structure DeclarationClass (P : Declaration → Prop) : Prop where
  type : ∀ t, P (.type t)
  pattern : ∀ (owner : String) (k : Constant), IsPatternName owner k.name → P (.const k)
  basePath : ∀ d, P (.const (basePathConst d))
  routes : ∀ ops, P (.const (routesConst ops))
  impl : ∀ m, ∀ b ∈ envelopeImpl m :: constructors m, P (.impl b)

theorem declarationClass_true : DeclarationClass fun _ => True where
  type _ := trivial
  pattern _ _ _ := trivial
  basePath _ := trivial
  routes _ := trivial
  impl _ _ _ := trivial

section Files

variable {N : String → Prop} {P : Declaration → Prop} {env : Env} (hN : NameClass N)

include hN

theorem takeNames_spells : ∀ names : List (Nat × String), (∀ p ∈ names, N p.2) →
    Spells N (takeNames names) fun _ => True
  | [], _ => .pure trivial
  | _ :: rest, h => (allocateName_spells hN (List.forall_mem_cons.1 h).1).bind fun _ _ =>
    (takeNames_spells rest (List.forall_mem_cons.1 h).2).bind fun _ _ => .pure trivial

theorem takeResponseNames_spells (op : Operation) : Spells N (takeResponseNames op) fun _ => True := by
  have hbase : N (pascalCase op.operationId ++ "Response") := hN.append _ _ (hN.pascal _) (by decide)
  refine (allocateName_spells hN hbase).bind fun envelope _ => ?_
  refine (takeNames_spells hN _ fun p hp => ?_).bind fun payloads _ => .pure trivial
  obtain ⟨status, -, rfl⟩ := List.mem_map.1 hp
  exact hN.append _ _ hbase (wordy_toString status)

variable (hP : DeclarationClass P)

include hP

theorem compileOperation_spells (root : String) {p : Progress} (hp : ∀ d ∈ p.output.declarations, P d)
    (raw : RawOperation) :
    Spells N (compileOperation env root p raw) fun p' => ∀ d ∈ p'.output.declarations, P d := by
  refine Spells.get.bind fun s _ => (raw.resolve_spells hN).bind fun op _ => Spells.get.bind fun s₁ _ => ?_
  have hrequest : N (requestName op) := hN.append _ "Request" (hN.pascal _) (by decide)
  refine (allocateName_spells hN hrequest).bind fun request _ => ?_
  refine (takeResponseNames_spells hN op).bind fun m _ => .pure ?_
  exact (emitOperation_upholds root env.presence (fun _ _ k hk => hP.pattern _ k hk.name)
    (fun k hk => hP.pattern request k hk.name) hP.type (hP.impl m)).forall_mem hp

theorem compileOperations_spells (root : String) : ∀ (raws : List RawOperation) {p : Progress},
    (∀ d ∈ p.output.declarations, P d) →
    Spells N (compileOperations env root raws p) fun p' => ∀ d ∈ p'.output.declarations, P d
  | [], _, hp => .pure hp
  | raw :: raws, _, hp => (compileOperation_spells hN hP root hp raw).bind fun _ hp₁ =>
    compileOperations_spells root raws hp₁

/-- **Assembling a file** keeps states spelled, and its declarations have every property of all files. -/
theorem assemble_spells (root : String) (raws : List RawOperation) :
    Spells N (assemble env root raws) fun p => ∀ d ∈ p.output.declarations, P d := by
  refine (resolveKeys_spells hN _ _).bind fun _ _ => Spells.get.bind fun s _ => ?_
  refine compileOperations_spells hN hP root raws ?_
  have hstart : Upholds P (do
      declare (.const (basePathConst env.description))
      declare (.const (routesConst raws))
      emitNodes root (s.declarationsSince 0)) :=
    (declare_upholds (hP.basePath _)).bind fun _ => (declare_upholds (hP.routes _)).bind fun _ =>
      emitNodes_upholds root _ (fun _ _ k hk => hP.pattern _ k hk.name) fun _ _ _ => hP.type _
  exact hstart.forall_mem nofun

/-- What is known at the end of a compilation: the state is spelled, and the declarations of the file have every
property of all files. -/
theorem Run.spelled {config : Config} {d : Description} {c : Compilation} {s : State} {done : List Named}
    (hrun : Run config d c s done) : s.Spelled N ∧ ∀ e ∈ c.file.declarations, P e := by
  obtain ⟨raws, notes, p, -, hassemble, hfile⟩ := hrun.exists_run
  obtain ⟨hs, hp⟩ := (assemble_spells hN hP _ _ _ (spelled_initial hN)).of_ok hassemble
  rw [hfile]
  exact ⟨hs, hp⟩

end Files

end ApiForge.Emission

import ApiForge.Proofs.Schema.Reading

/-!
# Schemas with the flag for `null`

A schema object may be flagged as nullable, whatever its form is. All forms but one take the flag over to the node that
is built. The node of a union is that of the one schema in it, with `null` added if it is among the members; the flag of
the union itself is not looked at.

* `typedNode_nullable`, `formNode_flagged`: the nodes of references, compositions and typed schemas.
* `unionNode_isNullable`: the node of a union.
* `build_isNullable_iff`: when the node of a flagged schema is nullable, for every build.
-/

namespace ApiForge.Schema

open Json

section Forms

variable {env : Env} {build : Build} {ms : Members} {c : Context} {s : State}

/-! ## Forms that take the flag over -/

theorem scalarNode_nullable (kind : ScalarKind) (nullable : Bool) :
    Ends (scalarNode c kind nullable ms) s (fun n _ => n.nullable = nullable) fun _ _ => True :=
  (Ends.trivial _ _).bind fun _ s₁ _ => (declareNode_ends _ s₁).mono (fun _ _ hn => hn ▸ rfl) fun _ _ h => h

theorem enumNode_nullable (members : List Json) (nullable : Bool) :
    Ends (enumNode ms members nullable c) s (fun n _ => n.nullable = nullable) fun _ _ => True := by
  unfold enumNode
  split
  · exact ends_throw.2 trivial
  · exact ends_throw.2 trivial
  · refine (Ends.trivial _ _).bind fun name _ _ => ?_
    refine (Ends.trivial _ _).bind fun slot _ _ => ?_
    refine (Ends.trivial _ _).bind fun constraints _ _ => ?_
    exact (Ends.trivial _ _).bind fun _ _ _ => ends_pure.2 rfl

theorem arrayNode_nullable (nullable : Bool) :
    Ends (arrayNode build ms nullable c) s (fun n _ => n.nullable = nullable) fun _ _ => True := by
  refine (Ends.trivial _ _).bind fun slot _ _ => ?_
  refine (Ends.trivial _ _).bind fun element _ _ => ?_
  refine (Ends.trivial _ _).bind fun constraints _ _ => ?_
  exact (Ends.trivial _ _).bind fun _ _ _ => ends_pure.2 rfl

theorem objectNode_nullable (nullable : Bool) :
    Ends (objectNode build ms nullable c) s (fun n _ => n.nullable = nullable) fun _ _ => True := by
  refine (Ends.trivial _ _).bind fun name _ _ => ?_
  refine (Ends.trivial _ _).bind fun slot _ _ => ?_
  refine (Ends.trivial _ _).bind fun fields _ _ => ?_
  exact (Ends.trivial _ _).bind fun _ _ _ => ends_pure.2 rfl

/-- A typed schema is nullable by the flag, whatever its type is. -/
theorem typedNode_nullable (hflag : flag ms "nullable" = true) :
    Ends (typedNode build ms c) s (fun n _ => n.nullable = true) fun _ _ => True := by
  unfold typedNode
  split
  · exact ends_throw.2 trivial
  · rename_i type listed _
    have hnullable : (listed || flag ms "nullable") = true := by rw [hflag, Bool.or_true]
    simp only [hnullable]
    split
    · exact objectNode_nullable true
    · exact arrayNode_nullable true
    · split
      · exact enumNode_nullable _ true
      · exact scalarNode_nullable _ true
    · exact scalarNode_nullable _ true
    · exact scalarNode_nullable _ true
    · exact scalarNode_nullable _ true
    · exact scalarNode_nullable _ true
    · exact ends_throw.2 trivial

theorem allOfNode_nullable (hflag : flag ms "nullable" = true) :
    Ends (allOfNode env build ms c) s (fun n _ => n.nullable = true) fun _ _ => True := by
  refine (Ends.trivial _ _).bind fun name _ _ => ?_
  refine (Ends.trivial _ _).bind fun slot _ _ => ?_
  refine (Ends.trivial _ _).bind fun merged _ _ => ?_
  refine (Ends.trivial _ _).bind fun fields _ _ => ?_
  exact (Ends.trivial _ _).bind fun _ _ _ => ends_pure.2 hflag

/-! ## Unions -/

/-- The node of a union is that of the one schema in it, with `null` added if it is a member. -/
theorem unionNode_isNullable (members : Json) :
    Ends (unionNode build members c) s (fun n _ => ∃ list single n₁ s₁, members = .arr list ∧
      list.filter (!isNullMember ·) = [single] ∧ (build single c).run s = .ok n₁ s₁ ∧
      (n.isNullable = true ↔ list.any isNullMember = true ∨ n₁.isNullable = true)) fun _ _ => True := by
  unfold unionNode
  split
  · exact ends_throw.2 trivial
  · rename_i list hlist
    obtain rfl : members = .arr list := by
      cases members with
      | arr items => cases hlist; rfl
      | _ => cases hlist
    split
    · rename_i single hsingle
      refine Ends.bind_run fun n₁ s₁ hrun => ?_
      split
      · rename_i hdone
        refine ends_pure.2 ⟨list, single, n₁, s₁, rfl, hsingle, hrun, ?_⟩
        constructor
        · exact .inr
        · rintro (hnull | hn)
          · have hown : n₁.nullable = true := by simpa [hnull] using hdone
            rw [Node.isNullable, hown, Bool.true_or]
          · exact hn
      · rename_i hopen
        have hnull : list.any isNullMember = true := by
          cases hany : list.any isNullMember with
          | true => rfl
          | false => simp [hany] at hopen
        refine (Ends.trivial _ _).bind fun _ _ _ => ends_pure.2 ⟨list, single, n₁, s₁, rfl, hsingle, hrun, ?_⟩
        exact iff_of_true rfl (.inl hnull)
    · exact ends_throw.2 trivial

/-! ## Schema objects -/

theorem Node.isNullable_of_nullable {n : Node} (h : n.nullable = true) : n.isNullable = true := by
  rw [Node.isNullable, h, Bool.true_or]

/-- The node of a flagged schema object is nullable, unless the object is a union, whose node says itself what it is. -/
theorem formNode_isNullable (hflag : flag ms "nullable" = true) :
    Ends (formNode env build ms c) s (fun n _ => n.isNullable = true ↔ ∀ members single, IsUnion ms members single →
      members.any isNullMember = true ∨
        ∃ n₁ s₁, (build single c).run s = .ok n₁ s₁ ∧ n₁.isNullable = true) fun _ _ => True := by
  -- a form that is no union takes the flag over, so both sides hold
  have htaken : ∀ {m : Resolve Node}, Ends m s (fun n _ => n.nullable = true) (fun _ _ => True) →
      (∀ members single, ¬ IsUnion ms members single) →
      Ends m s (fun n _ => n.isNullable = true ↔ ∀ members single, IsUnion ms members single →
        members.any isNullMember = true ∨
          ∃ n₁ s₁, (build single c).run s = .ok n₁ s₁ ∧ n₁.isNullable = true) fun _ _ => True := by
    intro m hm hform
    refine hm.mono (fun n _ hn => ?_) fun _ _ h => h
    exact iff_of_true (Node.isNullable_of_nullable hn) fun members single h => absurd h (hform members single)
  unfold formNode
  split
  · rename_i reference href
    refine htaken ?_ fun members single h => ?_
    · refine (Ends.trivial _ _).bind fun target s₁ _ => ?_
      exact (declareNode_ends _ s₁).mono (fun n _ hn => hn ▸ hflag) fun _ _ h => h
    · cases href.symm.trans h.reference
  · rename_i href
    split
    · rename_i hall
      refine htaken (allOfNode_nullable hflag) fun members single h => ?_
      cases hall.symm.trans h.composition
    · rename_i hall
      have hall : ms.has "allOf" = false := by simpa using hall
      split
      · rename_i members hmembers
        refine (unionNode_isNullable members).mono (fun n _ h => ?_) fun _ _ h => h
        obtain ⟨list, single, n₁, s₁, rfl, honly, hrun, hn⟩ := h
        have hunion : IsUnion ms list single := ⟨href, hall, hmembers, honly⟩
        rw [hn]
        constructor
        · intro h list' single' hunion'
          obtain ⟨rfl, rfl⟩ := hunion.unique hunion'
          exact h.imp_right fun hn₁ => ⟨n₁, s₁, hrun, hn₁⟩
        · intro h
          refine (h list single hunion).imp_right ?_
          rintro ⟨n₁', s₁', hrun', hn₁'⟩
          cases hrun.symm.trans hrun'
          exact hn₁'
      · rename_i hnone
        refine htaken (typedNode_nullable hflag) fun members single h => ?_
        exact h.not_plain ⟨href, hall, hnone⟩

end Forms

/-- **When the flag for `null` is honoured**: the node that is built for a flagged schema object is nullable exactly if
the object is no union, or `null` is a member of the union, or the node that is built for its one other member is
nullable. So every form honours the flag but a union without `null`, for which it counts nothing. -/
theorem build_isNullable_iff {env : Env} {steps : Nat} {ms : Members} {c : Context} {s s' : State} {n : Node}
    (hflag : flag ms "nullable" = true) (hrun : (Schema.build env steps (.obj ms) c).run s = .ok n s') :
    n.isNullable = true ↔ ∀ members single, IsUnion ms members single → members.any isNullMember = true ∨
      ∃ n₁ s₁, (Schema.build env (steps - 1) single c).run s = .ok n₁ s₁ ∧ n₁.isNullable = true := by
  cases steps with
  | zero => cases hrun
  | succ steps => exact (formNode_isNullable hflag).of_ok hrun

/-- A description without named schemas. -/
def emptyEnv : Env := ⟨⟨"", "", "", "", .obj [], []⟩, .standard⟩

/-- A context of a schema in an operation. -/
def bodyContext : Context := ⟨none, "notes", "Body", none, .standard, []⟩

/-- A flagged union of one schema that is itself a union with `null`. -/
def nestedUnion : Members :=
  [("nullable", .bool true),
    ("anyOf", .arr [.obj [("oneOf", .arr [.obj [("type", .str "string")], .obj [("type", .str "null")]])]])]

theorem build_nestedUnion : Ends (Schema.build emptyEnv 3 (.obj nestedUnion) bodyContext) (.initial emptyEnv)
    (fun n _ => n.isNullable = true) fun _ _ => False := by
  decide

theorem build_isNullable_iff_nestedUnion : flag nestedUnion "nullable" = true ∧
    ∃ n s', (Schema.build emptyEnv 3 (.obj nestedUnion) bodyContext).run (.initial emptyEnv) = .ok n s' ∧
      n.isNullable = true ∧ ∀ members single, IsUnion nestedUnion members single → members.any isNullMember = true ∨
        ∃ n₁ s₁, (Schema.build emptyEnv 2 single bodyContext).run (.initial emptyEnv) = .ok n₁ s₁ ∧
          n₁.isNullable = true := by
  obtain ⟨n, s', hrun, hn⟩ := build_nestedUnion.exists_ok
  exact ⟨rfl, n, s', hrun, hn, (build_isNullable_iff rfl hrun).1 hn⟩

/-- A flagged union of texts alone. -/
def textUnion : Members := [("oneOf", .arr [.obj [("type", .str "string")]]), ("nullable", .bool true)]

theorem resolveInline_textUnion : Ends (resolveInline emptyEnv (.obj textUnion) "Body" "notes") (.initial emptyEnv)
    (fun n _ => n.isNullable = false) fun _ _ => False := by
  decide

/-- A flagged schema object is resolved, and its node is not nullable. -/
theorem resolveInline_forgets_flag : flag textUnion "nullable" = true ∧
    ∃ n s', (resolveInline emptyEnv (.obj textUnion) "Body" "notes").run (.initial emptyEnv) = .ok n s' ∧
      n.isNullable = false := by
  obtain ⟨n, s', hrun, hn⟩ := resolveInline_textUnion.exists_ok
  exact ⟨rfl, n, s', hrun, hn⟩

end ApiForge.Schema

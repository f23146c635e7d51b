import ApiForge.Proofs.Emission.Completeness

/-!
# Named types are declared

A type that is generated for a schema names at most one type: that of a scalar, or that of the schema it speaks of. So
generated types make sense if every declared schema that stands anywhere is among the declarations, and no name is used
twice.

* `TypeExpr.names`: the named types in a type.
* `names_typeExpr`: the type of a schema names what the schema means.
* `compile_closed`: after a compilation all names are different, and every named type in the type of a schema is that of
  a scalar or that of the one declaration which is meant.
-/

namespace ApiForge.Code.TypeExpr

mutual

/-- The named types in a type. -/
def names : TypeExpr → List String
  | named name => [name]
  | generic _ args => namesAll args
  | ref _ inner => inner.names
  | slice inner => inner.names
  | tuple items => namesAll items

/-- The named types in a list of types. -/
def namesAll : List TypeExpr → List String
  | [] => []
  | type :: types => type.names ++ namesAll types

end

@[simp] theorem names_option (inner : TypeExpr) : (option inner).names = inner.names := List.append_nil _

@[simp] theorem names_vec (inner : TypeExpr) : (vec inner).names = inner.names := List.append_nil _

end ApiForge.Code.TypeExpr

namespace ApiForge.Emission

open Code Schema Compilation

/-! ## Names in types -/

/-- The types of scalars. -/
def scalarTypes : List String := ["String", "i32", "i64", "f32", "f64", "bool", "serde_json::Value"]

theorem scalarType_names (kind : ScalarKind) (format : Option String) :
    ∀ name ∈ (scalarType kind format).names, name ∈ scalarTypes := by
  intro name hname
  cases kind with
  | integer | number =>
    rw [scalarType, TypeExpr.names, List.mem_singleton] at hname
    rw [hname]
    split <;> decide
  | string | boolean | dateTime | any =>
    rw [scalarType, TypeExpr.names, List.mem_singleton] at hname
    rw [hname]
    decide

/-- The type of a schema names what the type of the schema that is meant names. -/
theorem names_typeExpr : ∀ n : Node, (typeExpr n).names = (typeExpr n.meant).names
  | ⟨name, .array element, false, nullable, format, c, description⟩ => by
    have hvec : (typeExpr ⟨name, .array element, false, nullable, format, c, description⟩).names =
        (typeExpr element).names := by
      rw [typeExpr, if_neg Bool.false_ne_true, kindExpr]
      split <;> simp
    rw [hvec, Node.meant]
    exact names_typeExpr element
  | ⟨name, .reference target, false, nullable, format, c, description⟩ => by
    rw [typeExpr, if_neg Bool.false_ne_true, kindExpr, Node.meant]
    exact names_typeExpr target
  | ⟨_, .array _, true, _, _, _, _⟩ | ⟨_, .reference _, true, _, _, _, _⟩ | ⟨_, .scalar _, _, _, _, _, _⟩
  | ⟨_, .enumeration _, _, _, _, _, _⟩ | ⟨_, .object _, _, _, _, _, _⟩ => rfl

/-- What is meant has a declaration, or it is no array and no reference. -/
theorem meant_declared : ∀ n : Node, n.meant.declared = true ∨
    ∀ m, n.meant.kind ≠ .array m ∧ n.meant.kind ≠ .reference m
  | ⟨_, .array element, false, _, _, _, _⟩ => by rw [Node.meant]; exact meant_declared element
  | ⟨_, .reference target, false, _, _, _, _⟩ => by rw [Node.meant]; exact meant_declared target
  | ⟨_, .array _, true, _, _, _, _⟩ | ⟨_, .reference _, true, _, _, _, _⟩ => .inl rfl
  | ⟨_, .scalar _, _, _, _, _, _⟩ | ⟨_, .enumeration _, _, _, _, _, _⟩ | ⟨_, .object _, _, _, _, _, _⟩ =>
    .inr fun _ => ⟨Kind.noConfusion, Kind.noConfusion⟩

theorem typeExpr_declared {n : Node} (h : n.declared = true) : typeExpr n = .named n.name := by
  obtain ⟨name, kind, declared, _, format, _, _⟩ := n
  obtain rfl : declared = true := h
  rw [typeExpr, if_pos rfl]

theorem typeExpr_inline {n : Node} (h : n.declared = false) : typeExpr n = shapeExpr n := by
  obtain ⟨name, kind, declared, _, format, _, _⟩ := n
  obtain rfl : declared = false := h
  rw [typeExpr, if_neg Bool.false_ne_true, shapeExpr]

/-- In a tree among declarations, a named type is that of a scalar that is meant, or that of the declaration that is. -/
theorem names_of_within {n : Node} {declared : List Node} (h : n.Within declared) :
    ∀ name ∈ (typeExpr n).names, (name ∈ scalarTypes ∧ n.meant.declared = false ∧ ∃ kind, n.meant.kind = .scalar kind) ∨
      (n.meant ∈ declared ∧ n.meant.name = name) := by
  intro name hname
  rw [names_typeExpr] at hname
  have hstands := h n.meant n.meant_partOf
  unfold Node.StandsIn at hstands
  cases hd : n.meant.declared with
  | true =>
    rw [typeExpr_declared hd, TypeExpr.names, List.mem_singleton] at hname
    rw [if_pos hd] at hstands
    exact .inr ⟨hstands, hname.symm⟩
  | false =>
    rw [if_neg (by rw [hd]; exact Bool.false_ne_true)] at hstands
    have hshape := (meant_declared n).resolve_left (by rw [hd]; exact Bool.false_ne_true)
    cases hk : n.meant.kind with
    | scalar kind =>
      rw [typeExpr_inline hd, shapeExpr, hk, kindExpr] at hname
      exact .inl ⟨scalarType_names kind _ name hname, rfl, kind, rfl⟩
    | array element => exact absurd hk (hshape element).1
    | reference target => exact absurd hk (hshape target).2
    | enumeration members => rw [hk] at hstands; cases hstands
    | object fields => rw [hk] at hstands; cases hstands

/-! ## Compilations -/

/-- **Type names are unique and closed.** In a compilation the names of the declared schemas, and the names that were
taken for the requests, envelopes and payloads of its operations, are different, and under a taken name the file has the
type that is built for the operation. Take a schema that stands anywhere in a named schema, in an operation or in a
declared schema. A named type in its type is that of a scalar, or it is declared, and the declaration of this name is
the very schema that is meant. -/
theorem compile_closed {config : Config} {d : Description} {c : Compilation} (h : compile config d = .ok c) :
    ∃ s done entries s₀, Run config d c s done ∧
      (resolveComponents ⟨d, config.presence⟩).run (State.initial ⟨d, config.presence⟩) = .ok entries s₀ ∧
      (s.declaredNames ++ done.flatMap operationNames).Nodup ∧
      (∀ x ∈ done.flatMap operationSources, ∃ t, .type t ∈ c.file.declarations ∧ t.name = x.name ∧
        x.Builds config.presence t) ∧
      ∀ root ∈ entries.map (·.2) ++ c.operations.flatMap Operation.nodes ++ s.declarationsSince 0,
        ∀ n, n.PartOf root → ∀ name ∈ (typeExpr n).names,
          (name ∈ scalarTypes ∧ n.meant.declared = false ∧ ∃ kind, n.meant.kind = .scalar kind) ∨
          (n.meant ∈ s.declarationsSince 0 ∧ ∀ m ∈ s.declarationsSince 0, m.name = name ↔ m = n.meant) := by
  obtain ⟨s, done, p, hrun, hfile, hdone⟩ := compile_assembled h
  obtain ⟨entries, s₀, hresolve, hentries⟩ := hdone.components
  refine ⟨s, done, entries, s₀, hrun, hresolve, hdone.names_nodup, fun x hx => ?_, fun root hroot n hn name hname => ?_⟩
  · obtain ⟨t, ht, hbuilds⟩ := hdone.exists_type hx
    refine ⟨t, ?_, hbuilds.name, hbuilds⟩
    rw [hfile]
    exact List.mem_of_mem_filter (ht ▸ List.mem_singleton_self _)
  · have hwithin : root.Within (s.declarationsSince 0) := by
      rcases List.mem_append.1 hroot with hroot | hroot
      · rcases List.mem_append.1 hroot with hroot | hroot
        · obtain ⟨e, he, rfl⟩ := List.mem_map.1 hroot
          exact hentries e he
        · obtain ⟨op, hop, hroot⟩ := List.mem_flatMap.1 hroot
          rw [hrun.operations] at hop
          obtain ⟨e, he, rfl⟩ := List.mem_map.1 hop
          exact hdone.within e he root hroot
      · exact hdone.orderly.closed root (.inl hroot)
    rcases names_of_within (hwithin.part hn) name hname with hscalar | ⟨hmeant, rfl⟩
    · exact .inl hscalar
    · refine .inr ⟨hmeant, fun m hm => ⟨fun heq => ?_, fun heq => by rw [heq]⟩⟩
      exact List.inj_on_of_nodup_map hdone.orderly.distinct hm hmeant heq

/-- A description with a union that adds `null` to a record, and an operation that answers with a list of it. -/
def memosDescription : Description :=
  let record : Json := .obj [("type", .str "object"), ("properties", .obj [("text", .obj [("type", .str "string")])])]
  let memo : Json := .obj [("oneOf", .arr [record, .obj [("type", .str "null")]])]
  let memos : Json := .obj [("type", .str "array"), ("items", .obj [("$ref", .str "#/components/schemas/Memo")])]
  let response : Json := .obj [("content", .obj [("application/json", .obj [("schema", memos)])])]
  let get : Json := .obj [("operationId", .str "listMemos"), ("responses", .obj [("200", response)])]
  ⟨"", "Memos", "memos", "", .obj [("paths", .obj [("/memos", .obj [("get", get)])]),
    ("components", .obj [("schemas", .obj [("Memo", memo)])])], []⟩

theorem compile_memosDescription : (compile {} memosDescription).toOption.map (fun c =>
    c.operations.map fun op => op.nodes.map fun n => ((typeExpr n).names, n.meant.nullable)) =
    some [[(["Memo"], true)]] := by decide +kernel

theorem compile_closed_memos : ∃ c s done op n, compile {} memosDescription = .ok c ∧
    Run {} memosDescription c s done ∧ (s.declaredNames ++ done.flatMap operationNames).Nodup ∧
    op ∈ c.operations ∧ n ∈ op.nodes ∧ n.meant.nullable = true ∧ n.meant ∈ s.declarationsSince 0 ∧
    n.meant.name = "Memo" := by
  obtain ⟨c, hc, hview⟩ := exists_compiled compile_memosDescription
  obtain ⟨op, rest, hops, hnodes, -⟩ := List.map_eq_cons_iff.1 hview
  obtain ⟨n, others, hroots, hn, -⟩ := List.map_eq_cons_iff.1 hnodes
  obtain ⟨hnames, hnullable⟩ := Prod.mk.inj hn
  have hop : op ∈ c.operations := by rw [hops]; exact List.mem_cons_self
  have hmem : n ∈ op.nodes := by rw [hroots]; exact List.mem_cons_self
  obtain ⟨s, done, entries, s₀, hrun, -, hdistinct, -, hclosed⟩ := compile_closed hc
  have hroot : n ∈ entries.map (·.2) ++ c.operations.flatMap Operation.nodes ++ s.declarationsSince 0 :=
    List.mem_append_left _ (List.mem_append_right _ (List.mem_flatMap.2 ⟨op, hop, hmem⟩))
  rcases hclosed n hroot n .self "Memo" (by rw [hnames]; exact List.mem_singleton_self _) with ⟨hscalar, -⟩ | hmeant
  · exact absurd hscalar (by decide)
  · exact ⟨c, s, done, op, n, hc, hrun, hdistinct, hop, hmem, hnullable, hmeant.1, (hmeant.2 _ hmeant.1).2 rfl⟩

end ApiForge.Emission

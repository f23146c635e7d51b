import ApiForge.Proofs.Schema.Reading

/-!
# Schemas and their nodes

* `Stands env s doc raw n`: the schema `raw` in the document `doc` has been resolved, and `n` is its node. Named schemas
  and schemas that were asked about stand, and so does every schema that stands in one of these.
* `Stands.reads`: after any session, the node of a schema reads it.
* `Stands.sound`: it is sound.
-/

namespace ApiForge.Schema

open Json

/-- The schemas that have been resolved, with their documents and nodes. -/
inductive Stands (env : Env) (s : State) : Option String → Json → Node → Prop where
  | named {key : RefKey} {raw : Json} {n : Node} : env.rawSchema? key = some raw → s.known key = some n →
      Stands env s key.doc raw n
  | asked {s₀ s₁ : State} {nodes : List Node} {raw : Json} {hint owner : String} {n : Node} : Session env s₀ nodes →
      (resolveInline env raw hint owner).run s₀ = .ok n s₁ → s.known.Extends s₁.known → Stands env s none raw n
  | member {s₀ s₁ : State} {nodes : List Node} {hint owner : String} {members : List Member} {presence : Presence}
      {n : Node} {m : Member} {f : Field} : Session env s₀ nodes →
      (synthesizeObject env hint members presence owner).run s₀ = .ok n s₁ → s.known.Extends s₁.known →
      (m, f) ∈ members.zip n.fields → Stands env s none (m.schema.getD stringSchema) f.type
  | item {doc : Option String} {ms : Members} {n element : Node} {items : Json} : Stands env s doc (.obj ms) n →
      Plain ms → ms.get? "items" = some items → n.kind = .array element → Stands env s doc items element
  | property {doc : Option String} {ms : Members} {n : Node} {fields : List Field} {p : String × Json} {f : Field} :
      Stands env s doc (.obj ms) n → Plain ms → n.kind = .object fields → (p, f) ∈ (propertiesOf ms).zip fields →
      Stands env s doc p.2 f.type
  -- the node of the one schema in a union is that of the union, but for the mark
  | union {doc : Option String} {ms : Members} {n : Node} {members : List Json} {single : Json} {nullable : Bool} :
      Stands env s doc (.obj ms) n → IsUnion ms members single → (nullable = true ↔ Marked single) →
      Stands env s doc single { n with nullable }
  | definition {doc : Option String} {ms : Members} {n : Node} {fields : List Field} {f : Field} {schema : Json} :
      Stands env s doc (.obj ms) n → textOf ms "$ref" = none → ms.has "allOf" = true → n.kind = .object fields →
      f ∈ fields → IsLastProperty s.known doc ms f.wireKey schema → Stands env s doc schema f.type

theorem Session.asked {env : Env} {s s' : State} {nodes : List Node} (h : Session env s nodes) {raw : Json}
    {hint owner : String} {n : Node} (hrun : (resolveInline env raw hint owner).run s = .ok n s') :
    Session env s' (nodes ++ [n]) := by
  refine .answered (.inline raw hint owner) h ?_
  change EStateM.bind (resolveInline env raw hint owner) _ s = _
  unfold EStateM.bind
  rw [show resolveInline env raw hint owner s = .ok n s' from hrun]
  rfl

section Standing

variable {env : Env} {s : State} {nodes : List Node} {doc : Option String} {raw : Json} {n : Node}

/-- **Nodes read their schemas**, wherever these stand. -/
theorem Stands.reads (h : Session env s nodes) (hn : Stands env s doc raw n) : n.Reads s.known doc raw := by
  induction hn with
  | named hraw hknown =>
    obtain ⟨raw', hraw', hn⟩ := h.faithful _ _ hknown
    obtain rfl := Option.some.inj (hraw.symm.trans hraw')
    exact hn
  | asked h₀ hrun hext => exact ((build_learns env _ _ _ _ h₀.faithful).of_ok hrun).2.mono hext
  | member h₀ hrun hext hmem =>
    have hfields := ((synthesizeObject_learns _ _ _ _ h₀.faithful).of_ok hrun).2
    exact (List.forall₂_zip hfields hmem).mono hext
  | item _ hplain hitems hkind ih => exact (ih.reading.parts _ rfl).items _ _ hplain hitems hkind
  | property _ hplain hkind hmem ih =>
    have hfields := (ih.reading.parts _ rfl).record _ hplain hkind
    exact (List.forall₂_zip (List.forall₂_map_left_iff.1 hfields) hmem).2
  | union _ hunion hnullable ih =>
    obtain ⟨n', hn', hkind⟩ := (ih.reading.parts _ rfl).union _ _ hunion
    exact hn'.of_kind hkind.symm hnullable
  | definition _ href hall hkind hf hlast ih =>
    obtain ⟨fields, hkind', hcomposed⟩ := (ih.reading.parts _ rfl).composition href hall
    cases hkind.symm.trans hkind'
    exact hcomposed.reads_type hf hlast

/-- The nodes of schemas are sound. -/
theorem Stands.sound (h : Session env s nodes) (hn : Stands env s doc raw n) : ∃ ρ, n.Sound ρ := by
  induction hn with
  | named _ hknown =>
    obtain ⟨ρ, hv, -⟩ := h.valid
    obtain ⟨⟨key, n⟩, hfind, rfl⟩ := Option.map_eq_some_iff.1 hknown
    exact ⟨ρ, hv.resolved key n (List.mem_of_find?_eq_some hfind)⟩
  | asked h₀ hrun =>
    obtain ⟨ρ, hv, -⟩ := h₀.valid
    obtain ⟨ρ', -, -, hn⟩ := (resolveInline_keeps hv _ _ _).of_ok hrun
    exact ⟨ρ', hn⟩
  | member h₀ hrun _ hmem =>
    obtain ⟨ρ, hv, -⟩ := h₀.valid
    obtain ⟨ρ', -, -, hn⟩ := (synthesizeObject_keeps hv _ _ _ _).of_ok hrun
    exact ⟨ρ', (hn.fields _ (List.of_mem_zip hmem).2).1⟩
  | item _ _ _ hkind ih =>
    obtain ⟨ρ, hn⟩ := ih
    exact ⟨ρ, hn.part (.element hkind .self)⟩
  | property _ _ hkind hmem ih =>
    obtain ⟨ρ, hn⟩ := ih
    exact ⟨ρ, hn.part (.field hkind (List.of_mem_zip hmem).2 .self)⟩
  | union _ _ _ ih =>
    obtain ⟨ρ, hn⟩ := ih
    exact ⟨ρ, hn.nullable _⟩
  | definition _ _ _ hkind hf _ ih =>
    obtain ⟨ρ, hn⟩ := ih
    exact ⟨ρ, hn.part (.field hkind hf .self)⟩

end Standing

end ApiForge.Schema

import ApiForge.Proofs.Schema.Standing

/-!
# Required fields of compositions

Whether a field of a composition is required, in terms of the pieces that the composition is collected from. Keys that
schemas list as required are gathered apart from the fields, so they count wherever they are listed. A required field of
a record that is referred to counts only as long as no later piece defines its key again.

* `Field.Lasting key fields`: no required definition of the key is followed by one that is not.
* `Field.Unioned`: what is known about a field of a composition.
* `Stands.composition_unioned`: it holds of every composition that is resolved, wherever it stands.
-/

namespace ApiForge.Schema

open Json

/-- No required field of a key is followed by one that is not required. -/
def Field.Lasting (key : String) (fields : List Field) : Prop :=
  fields.Pairwise fun d e => d.wireKey = key → e.wireKey = key → d.required = true → e.required = true

/-- The last definition of a key is required if any is, as long as no required one is followed by another. -/
theorem Field.Lasting.required_of_isLast {key : String} {fields : List Field} (h : Field.Lasting key fields)
    {d e : Field} (hd : d ∈ fields) (hkey : d.wireKey = key) (hrequired : d.required = true) (he : e.IsLast fields)
    (hkey' : e.wireKey = key) : e.required = true := by
  obtain ⟨before, after, rfl, hafter⟩ := he
  rcases List.mem_append.1 hd with hd | hd
  · exact (List.pairwise_append.1 h).2.2 d hd e List.mem_cons_self hkey hkey' hrequired
  · rcases List.mem_cons.1 hd with rfl | hd
    · exact hrequired
    · exact absurd (hkey.trans hkey'.symm) (hafter d hd)

section Pieces

variable {known : Known} {doc : Option String} {reads : Json → Node → Prop} {ps : List Piece} {defs : List (List Field)}
  {key : String}

/-- A required definition comes from a piece that asks for its key. -/
theorem exists_requires (hdefs : List.Forall₂ (Piece.Defines known doc reads) ps defs) {d : Field}
    (hd : d ∈ defs.flatten) (hrequired : d.required = true) : ∃ p ∈ ps, p.Requires known doc d.wireKey := by
  obtain ⟨fields, hfields, hd⟩ := List.mem_flatten.1 hd
  obtain ⟨p, hp, hdefines⟩ := exists_left_of_forall₂ hdefs hfields
  refine ⟨p, hp, ?_⟩
  cases p with
  | referred reference =>
    obtain ⟨k, target, hk, hknown, -, rfl⟩ := hdefines
    exact ⟨k, target, d, hk, hknown, hd, rfl, hrequired⟩
  | own ms =>
    -- the properties of a schema are not required by themselves
    obtain ⟨e, he, hdemand, -⟩ := exists_left_of_forall₂ hdefines hd
    obtain ⟨p, -, rfl⟩ := List.mem_map.1 he
    have hfalse : d.required = false := (Prod.mk.inj hdemand).2
    cases hrequired.symm.trans hfalse

/-- A record that is referred to and has a required field defines the key as required. -/
theorem exists_definition (hdefs : List.Forall₂ (Piece.Defines known doc reads) ps defs) {reference : String}
    (hp : .referred reference ∈ ps) (h : Piece.Requires known doc key (.referred reference)) :
    ∃ d ∈ defs.flatten, d.wireKey = key ∧ d.required = true := by
  obtain ⟨k, target, d, hk, hknown, hd, hkey, hrequired⟩ := h
  obtain ⟨fields, hfields, k', target', hk', hknown', -, rfl⟩ := exists_right_of_forall₂ hdefs hp
  obtain rfl := hk.unique hk'
  obtain rfl : target = target' := Option.some.inj (hknown.symm.trans hknown')
  exact ⟨d, List.mem_flatten.2 ⟨_, hfields, hd⟩, hkey, hrequired⟩

end Pieces

/-- What is known about a field of a composition with some definitions: it carries the rule for presence exactly if it
is required, and it is required exactly if a schema lists its key or the last definition of its key is required. So some
piece asks for a required field, and every field that a piece asks for is required, if required definitions last. -/
structure Field.Unioned (known : Known) (doc : Option String) (ms : Members) (definitions : List Field) (f : Field) :
    Prop where
  rule : Rule.required ∈ f.rules ↔ f.required = true
  required : f.required = true ↔ (∃ own, .own own ∈ pieces ms ∧ f.wireKey ∈ textsOf own "required") ∨
    ∃ d : Field, d.IsLast definitions ∧ d.wireKey = f.wireKey ∧ d.required = true
  asked : f.required = true → ∃ p ∈ pieces ms, p.Requires known doc f.wireKey
  lasting : Field.Lasting f.wireKey definitions →
    (f.required = true ↔ ∃ p ∈ pieces ms, p.Requires known doc f.wireKey)

/-- What the last definition of the key of a field says about the field. -/
theorem Field.Unioned.of_isLast {known : Known} {doc : Option String} {reads : Json → Node → Prop} {ms : Members}
    {defs : List (List Field)} (hdefs : List.Forall₂ (Piece.Defines known doc reads) (pieces ms) defs) {f d : Field}
    (hrule : Rule.required ∈ f.rules ↔ f.required = true) (hd : d.IsLast defs.flatten) (hkey : d.wireKey = f.wireKey)
    (hmust : f.required = true ↔
      d.required = true ∨ ∃ own, .own own ∈ pieces ms ∧ f.wireKey ∈ textsOf own "required") :
    f.Unioned known doc ms defs.flatten := by
  have hrequired : f.required = true ↔ (∃ own, .own own ∈ pieces ms ∧ f.wireKey ∈ textsOf own "required") ∨
      ∃ d : Field, d.IsLast defs.flatten ∧ d.wireKey = f.wireKey ∧ d.required = true := by
    rw [hmust, or_comm]
    refine or_congr_right ⟨fun h => ⟨d, hd, hkey, h⟩, ?_⟩
    rintro ⟨d', hd', hkey', h⟩
    rwa [hd.unique hd' (hkey.trans hkey'.symm)]
  have hasked : f.required = true → ∃ p ∈ pieces ms, p.Requires known doc f.wireKey := by
    intro hf
    rcases hmust.1 hf with hdmust | ⟨own, hown, hlisted⟩
    · rw [← hkey]
      exact exists_requires hdefs hd.mem hdmust
    · exact ⟨.own own, hown, hlisted⟩
  refine ⟨hrule, hrequired, hasked, fun hlasting => ⟨hasked, ?_⟩⟩
  rintro ⟨p, hp, hasks⟩
  rw [hmust]
  cases p with
  | own own => exact .inr ⟨own, hp, hasks⟩
  | referred reference =>
    -- the record's required field is a definition, and the last one is required as well
    obtain ⟨g, hg, hgkey, hgmust⟩ := exists_definition hdefs hp hasks
    exact .inl (hlasting.required_of_isLast hg hgkey hgmust hd hkey)

/-- **Required keys are united, later definitions replace earlier ones**: after any session, the record of a composition
that has been resolved has a field for each key that a piece defines. The field is required exactly if a schema among
the pieces lists its key or the last definition of the key is required. -/
theorem Stands.composition_unioned {env : Env} {s : State} {nodes : List Node} (h : Session env s nodes)
    {doc : Option String} {ms : Members} {n : Node} (hn : Stands env s doc (.obj ms) n)
    (href : textOf ms "$ref" = none) (hall : ms.has "allOf" = true) :
    ∃ defs, List.Forall₂ (Piece.Defines s.known doc (Node.Reads s.known doc)) (pieces ms) defs ∧
      (∀ key, (∃ f ∈ n.fields, f.wireKey = key) ↔ ∃ d ∈ defs.flatten, d.wireKey = key) ∧
      ∀ f ∈ n.fields, f.Unioned s.known doc ms defs.flatten := by
  obtain ⟨ρ, hsound⟩ := hn.sound h
  obtain ⟨fields, hkind, hcomposed⟩ := ((hn.reads h).reading.parts ms rfl).composition href hall
  obtain ⟨defs, hdefs, hkeys, hlast⟩ := hcomposed.definitions
  have hfields : n.fields = fields := by
    rw [Node.fields, Node.target_of_shape (by rw [hkind]; rfl), hkind]
  rw [← hfields] at hkeys hlast
  refine ⟨defs, hdefs, hkeys, fun f hf => ?_⟩
  obtain ⟨d, hd, hkey, -, hmust⟩ := hlast f hf
  refine .of_isLast hdefs ?_ hd hkey hmust
  rw [Rule.required_mem_iff, (hsound.fields f hf).2, Rule.isRequired_fieldRules]

/-- A description of animals, which have a required number, and of dogs. -/
def animalEnv (dog : Members) : Env :=
  let animal : Json := .obj [("type", .str "object"), ("required", .arr [.str "id"]),
    ("properties", .obj [("id", .obj [("type", .str "integer")])])]
  ⟨⟨"", "", "", "", .obj [("components", .obj [("schemas", .obj [("Animal", animal), ("Dog", .obj dog)])])], []⟩,
    .standard⟩

/-- Animals with one more property. -/
def animalWith (key : String) (required : List String) : Members :=
  [("allOf", .arr [.obj [("$ref", .str "#/components/schemas/Animal")],
    .obj [("type", .str "object"), ("required", .arr (required.map Json.str)),
      ("properties", .obj [(key, .obj [("type", .str "integer")])])]])]

/-- The keys of the fields of a node, and whether they are required by presence and by rules. -/
def demandsOf (n : Node) : List (String × Bool × Bool) :=
  n.fields.map fun f => (f.wireKey, f.required, f.rules.any Rule.isRequired)

/-- The demands that are known of animals and of dogs. -/
def knownDemands (s : State) : Option (List (String × Bool × Bool)) × Option (List (String × Bool × Bool)) :=
  ((s.known ⟨none, "Animal"⟩).map demandsOf, (s.known ⟨none, "Dog"⟩).map demandsOf)

/-- The nodes of animals and dogs when all named schemas have been resolved. -/
theorem exists_dog {dog : Members} {s : State} {nodes : List Node} {animals dogs : List (String × Bool × Bool)}
    (hrun : (Query.components.answer (animalEnv dog)).run (.initial (animalEnv dog)) = .ok nodes s)
    (hview : knownDemands s == (some animals, some dogs)) :
    ∃ animal n, Session (animalEnv dog) s nodes ∧ s.known ⟨none, "Animal"⟩ = some animal ∧
      demandsOf animal = animals ∧ Stands (animalEnv dog) s none (.obj dog) n ∧ demandsOf n = dogs := by
  obtain ⟨hanimals, hdogs⟩ := Prod.mk.inj (eq_of_beq hview)
  obtain ⟨animal, hanimal, hanimals⟩ := Option.map_eq_some_iff.1 hanimals
  obtain ⟨n, hn, hdogs⟩ := Option.map_eq_some_iff.1 hdogs
  exact ⟨animal, n, .answered .components .start hrun, hanimal, hanimals, .named rfl hn, hdogs⟩

theorem components_tag : Ends (Query.components.answer (animalEnv (animalWith "tag" ["tag"])))
    (.initial (animalEnv (animalWith "tag" ["tag"])))
    (fun _ s => knownDemands s == (some [("id", true, true)], some [("id", true, true), ("tag", true, true)]))
    fun _ _ => False := by
  decide

theorem Stands.composition_unioned_tag : ∃ s nodes n defs, Session (animalEnv (animalWith "tag" ["tag"])) s nodes ∧
    Stands (animalEnv (animalWith "tag" ["tag"])) s none (.obj (animalWith "tag" ["tag"])) n ∧
    demandsOf n = [("id", true, true), ("tag", true, true)] ∧
    List.Forall₂ (Piece.Defines s.known none (Node.Reads s.known none)) (pieces (animalWith "tag" ["tag"])) defs ∧
    (∀ key, (∃ f ∈ n.fields, f.wireKey = key) ↔ ∃ d ∈ defs.flatten, d.wireKey = key) ∧
    ∀ f ∈ n.fields, f.Unioned s.known none (animalWith "tag" ["tag"]) defs.flatten := by
  obtain ⟨nodes, s, hrun, hview⟩ := components_tag.exists_ok
  obtain ⟨animal, n, hsession, -, -, hn, hdemands⟩ := exists_dog hrun hview
  obtain ⟨defs, hunioned⟩ := hn.composition_unioned hsession (by decide) (by decide)
  exact ⟨s, nodes, n, defs, hsession, hn, hdemands, hunioned⟩

theorem components_id : Ends (Query.components.answer (animalEnv (animalWith "id" [])))
    (.initial (animalEnv (animalWith "id" [])))
    (fun _ s => knownDemands s == (some [("id", true, true)], some [("id", false, false)])) fun _ _ => False := by
  decide

/-- A member asks for a key, but a later member defines the key again, and the field of the composition is not
required. -/
theorem composition_forgets_required : ∃ s nodes n f, Session (animalEnv (animalWith "id" [])) s nodes ∧
    Stands (animalEnv (animalWith "id" [])) s none (.obj (animalWith "id" [])) n ∧ f ∈ n.fields ∧ f.wireKey = "id" ∧
    (∃ p ∈ pieces (animalWith "id" []), p.Requires s.known none "id") ∧ f.required = false ∧
    Rule.required ∉ f.rules := by
  obtain ⟨nodes, s, hrun, hview⟩ := components_id.exists_ok
  obtain ⟨animal, n, hsession, hanimal, hanimals, hn, hdogs⟩ := exists_dog hrun hview
  obtain ⟨g, hgs, hg⟩ := List.map_eq_singleton_iff.1 hanimals
  obtain ⟨f, hfs, hf⟩ := List.map_eq_singleton_iff.1 hdogs
  obtain ⟨hgkey, hg⟩ := Prod.mk.inj hg
  obtain ⟨hkey, hf⟩ := Prod.mk.inj hf
  obtain ⟨hmust, hrule⟩ := Prod.mk.inj hf
  let c : Context := ⟨none, "dogs", "Dog", none, .standard, []⟩
  have hdenotes : Denotes c.doc "#/components/schemas/Animal" ⟨none, "Animal"⟩ := .of_toOption (by decide +kernel)
  refine ⟨s, nodes, n, f, hsession, hn, by simp [hfs], hkey, ⟨.referred "#/components/schemas/Animal", ?_, ?_⟩, hmust, ?_⟩
  · rw [pieces_eq]
    exact List.mem_append_left _ (List.mem_flatMap.2 ⟨_, List.mem_cons_self, List.mem_cons_self⟩)
  · exact ⟨_, animal, g, hdenotes, hanimal, by simp [hgs], hgkey, (Prod.mk.inj hg).1⟩
  · rw [Rule.required_mem_iff, hrule]
    decide

end ApiForge.Schema

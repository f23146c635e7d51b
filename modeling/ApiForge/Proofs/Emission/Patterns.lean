import ApiForge.Proofs.Emission.Completeness
import ApiForge.Proofs.Schema.Legible

/-!
# Pattern constants

Constants for patterns are named by an allocator of their own, which knows nothing of type names, and a declaration
under a name that is taken is dropped. So what an attribute names is the right constant only as long as type names and
names of constants stay apart. They do where type names are mild.

* `Output.Extends o o' us rs ls`: one output goes on to another one with the constants of some labels.
* `validateAttr_extends`, `fieldDecls_extends`: so do attributes and fields, for the patterns in their rules.
* `Output.Labelled xs o`: every type in an output is built from one of the sources `xs`, and the patterns in its
  attributes are labelled, one for one, by the patterns in the rules of the source.
* `emitNode_labels`, `emitRequest_labels`, `emitResponses_labels`: what is emitted keeps this for more sources.
* `compile_patterns`: it holds of every compilation with legible keys.
-/

namespace ApiForge.Emission

open Code Schema Naming Compilation

/-! ## Further constants -/

/-- The names of pattern constants in an output are those that its allocator has given out. -/
def Output.Reserved (o : Output) : Prop :=
  ∀ d ∈ o.declarations, ∀ name, d.name? = some name → PatternName name → name ∈ o.constants.taken

/-- An output goes on to another one with the constants of some labels. -/
structure Output.Extends (o o' : Output) (us rs : List PatternSite) (ls : List Label) : Prop where
  labels : Labels o.constants o'.constants us rs ls
  declarations : o'.declarations = o.declarations ++ ls.map fun l => .const l.const

section Extends

variable {o o₁ o₂ : Output} {us us' rs rs' : List PatternSite} {ls ls' : List Label}

theorem Output.Extends.refl (o : Output) : o.Extends o [] [] [] := ⟨.nil, (List.append_nil _).symm⟩

theorem Output.Extends.trans (h : o.Extends o₁ us rs ls) (h' : o₁.Extends o₂ us' rs' ls') :
    o.Extends o₂ (us ++ us') (rs ++ rs') (ls ++ ls') :=
  ⟨h.labels.append h'.labels, by rw [h'.declarations, h.declarations, List.map_append, List.append_assoc]⟩

theorem Output.Extends.reserved (h : o.Extends o₁ us rs ls) (ho : o.Reserved) : o₁.Reserved := by
  intro d hd name hname hpattern
  rw [h.declarations, List.mem_append] at hd
  rcases hd with hd | hd
  · exact (h.labels.taken name).2 (.inl (ho d hd name hname hpattern))
  · obtain ⟨l, hl, rfl⟩ := List.mem_map.1 hd
    exact (h.labels.taken name).2 (.inr (List.mem_map.2 ⟨l, hl, Option.some.inj hname⟩))

/-- Constants under names that are different and not taken are all declared. -/
theorem declarations_forM_const : ∀ (ls : List Label) (o : Output), (ls.map Label.name).Nodup →
    (∀ l ∈ ls, o.builder.isDeclared l.name = false) →
    (((ls.map Label.const).forM fun k => declare (.const k)).run o).2.declarations =
      o.declarations ++ ls.map fun l => .const l.const
  | [], _, _, _ => (List.append_nil _).symm
  | l :: ls, o, hdistinct, hnew => by
    obtain ⟨hl, hls⟩ := List.nodup_cons.1 hdistinct
    have hfirst : ((declare (.const l.const)).run o).2.declarations = o.declarations ++ [.const l.const] := by
      rcases declarations_declare (.const l.const) o with ⟨-, name, hname, htaken⟩ | ⟨hmore, -⟩
      · obtain rfl : l.name = name := Option.some.inj hname
        rw [hnew l List.mem_cons_self] at htaken
        cases htaken
      · exact hmore
    have hrest : ∀ l' ∈ ls, ((declare (.const l.const)).run o).2.builder.isDeclared l'.name = false := by
      intro l' hl'
      rw [← Bool.not_eq_true, isDeclared_iff, hfirst]
      rintro ⟨d, hd, hname⟩
      rcases List.mem_append.1 hd with hd | hd
      · have htaken := (isDeclared_iff o l'.name).2 ⟨d, hd, hname⟩
        rw [hnew l' (List.mem_cons_of_mem _ hl')] at htaken
        cases htaken
      · rw [List.mem_singleton.1 hd] at hname
        have hsame : l.name = l'.name := Option.some.inj hname
        exact hl (hsame ▸ List.mem_map_of_mem hl')
    refine (declarations_forM_const ls _ hls hrest).trans ?_
    rw [hfirst, List.append_assoc]
    rfl

theorem constants_forM_const : ∀ (ks : List Constant) (o : Output),
    ((ks.forM fun k => declare (.const k)).run o).2.constants = o.constants
  | [], _ => rfl
  | _ :: ks, _ => constants_forM_const ks _

/-- The attribute for some conditions has the patterns of the conditions. -/
theorem sites_validateAttribute {place : String} {depth : Nat} (metas : List Meta) :
    Meta.sitesAll place depth (Rule.validateAttribute? metas).toList = Meta.sitesAll place depth metas := by
  unfold Rule.validateAttribute?
  cases metas with
  | nil => rfl
  | cons m ms =>
    rw [List.isEmpty_cons, if_neg Bool.false_ne_true, Option.toList_some, Meta.sitesAll, Meta.sites,
      regexPath?_eq_none (by decide), if_neg (by decide), Meta.sitesAll, List.append_nil]
    rfl

/-- **The attribute of a field**: the constants for the patterns in its rules are all declared. -/
theorem validateAttr_extends (ho : o.Reserved) (place owner field : String) (rules : List Rule) (optional : Bool) :
    ∃ ls, o.Extends ((validateAttr owner field rules optional).run o).2
      (Meta.sitesAll place 0 ((validateAttr owner field rules optional).run o).1) (Rule.sitesAll place 0 rules) ls := by
  obtain ⟨ls, hls, hconstants⟩ := annotate_labels owner field place optional 0 rules (o.constants, [])
  -- the allocator does not know what is declared, but every declared name of this form comes from it
  have hnew : ∀ l ∈ ls, o.builder.isDeclared l.name = false := by
    intro l hl
    rw [← Bool.not_eq_true, isDeclared_iff]
    rintro ⟨d, hd, hname⟩
    exact (hls.fresh l hl).1 (ho d hd l.name hname (hls.fresh l hl).2)
  have hmetas : Meta.sitesAll place 0 ((validateAttr owner field rules optional).run o).1 = Meta.sitesAll place 0
      ((Rule.annotate (patternConstant owner field) optional 0 rules).run (o.constants, [])).1 := by
    exact sites_validateAttribute _
  refine ⟨ls, ?_, ?_⟩
  · rw [hmetas, validateAttr_run, constants_forM_const]
    exact hls
  · rw [validateAttr_run]
    have hks : (attrConstants owner field rules o.constants).2 = ls.map Label.const := hconstants
    rw [hks]
    exact declarations_forM_const ls _ hls.distinct hnew

theorem sites_wireAttr {place : String} {depth : Nat} (f : Schema.Field) :
    Meta.sitesAll place depth (wireAttr f) = [] := by
  have hrename : ∀ m ∈ (if plainName f.name == f.wireKey then [] else [Meta.nameValue "rename" (.str f.wireKey)]),
      ∀ depth, m.sites place depth = [] := by
    intro m hm depth
    split at hm
    · cases hm
    · rw [List.mem_singleton.1 hm, Meta.sites_nameValue]
  have hskip : ∀ m ∈ (if f.isOptional then
      [Meta.path "default", Meta.nameValue "skip_serializing_if" (.str "Option::is_none")] else []),
      ∀ depth, m.sites place depth = [] := by
    intro m hm depth
    split at hm
    · simp only [List.mem_cons, List.not_mem_nil, or_false] at hm
      rcases hm with rfl | rfl
      · rw [Meta.sites_path]
      · rw [Meta.sites_nameValue]
    · cases hm
  unfold wireAttr
  dsimp only
  generalize (if plainName f.name == f.wireKey then [] else _) = rename at hrename ⊢
  generalize (if f.isOptional then [Meta.path "default", _] else []) = skip at hskip ⊢
  split
  · rfl
  · refine Meta.sitesAll_eq_nil fun m hm => ?_
    rw [List.mem_singleton.1 hm]
    exact Meta.sites_list (by decide) fun depth m hm =>
      (List.mem_append.1 hm).elim (hrename m · depth) (hskip m · depth)

/-- **The fields of a record**: the constants for the patterns in their rules are all declared. -/
theorem fieldDecls_extends (owner : String) : ∀ (fields : List Schema.Field) {o : Output}, o.Reserved → ∃ ls,
    o.Extends ((fieldDecls owner fields).run o).2 (((fieldDecls owner fields).run o).1.flatMap Code.Field.sites)
      (fields.flatMap fun f => Rule.sitesAll f.name 0 f.rules) ls
  | [], o, _ => ⟨[], .refl o⟩
  | f :: fs, o, ho => by
    obtain ⟨ls, hls⟩ := validateAttr_extends ho f.name owner (plainName f.name) (annotationRules f.type f.rules)
      (f.isOptional && !f.type.isNullable)
    obtain ⟨ls', hls'⟩ := fieldDecls_extends owner fs (hls.reserved ho)
    refine ⟨ls ++ ls', ?_⟩
    rw [sites_annotationRules] at hls
    have hsites : Code.Field.sites ((fieldDecl owner f).run o).1 = Meta.sitesAll f.name 0
        ((validateAttr owner (plainName f.name) (annotationRules f.type f.rules)
          (f.isOptional && !f.type.isNullable)).run o).1 := by
      refine (Meta.sitesAll_append (wireAttr f) _).trans ?_
      rw [sites_wireAttr]
      rfl
    have hrun : ((fieldDecls owner (f :: fs)).run o).1 = ((fieldDecl owner f).run o).1 ::
      ((fieldDecls owner fs).run ((fieldDecl owner f).run o).2).1 := rfl
    rw [hrun, List.flatMap_cons, List.flatMap_cons, hsites]
    exact hls.trans hls'

/-- **The body of a request**: the constants for the patterns in its rules are all declared. -/
theorem bodyField_extends (ho : o.Reserved) (owner : String) (presence : Presence) (body : RequestBody) : ∃ ls,
    o.Extends ((bodyField owner presence body).run o).2 ((bodyField owner presence body).run o).1.sites
      (Rule.sitesAll "body" 0 body.rules) ls := by
  obtain ⟨ls, hls⟩ := validateAttr_extends ho "body" owner "body" (annotationRules body.node body.rules)
    ((!body.required || presence == .explicit || body.node.isNullable) && !body.node.isNullable)
  rw [sites_annotationRules] at hls
  exact ⟨ls, hls⟩

end Extends

/-! ## Labelled outputs -/

/-- The patterns in the attributes of a type are, one for one, those in the rules of a source, at the same places and
depths, and the constants they name are declared with their sources. -/
def LabelledBy (ds : List Declaration) (t : TypeDecl) (x : Source) : Prop :=
  ∃ ls : List Label, t.sites = ls.map Label.use ∧ x.sites = ls.map Label.origin ∧ ∀ l ∈ ls, .const l.const ∈ ds

/-- An output in which the patterns of every type are labelled by those of one of the sources, with a constant for each
of them. -/
structure Output.Labelled (presence : Presence) (xs : List Source) (o : Output) : Prop where
  reserved : o.Reserved
  named : ∀ name ∈ o.constants.taken, PatternName name
  used : ∀ u ∈ o.declarations.flatMap Declaration.sites, u.text ∈ o.constants.taken
  distinct : ((o.declarations.flatMap Declaration.sites).map PatternSite.text).Nodup
  origin : ∀ t, .type t ∈ o.declarations → ∃ x ∈ xs, x.Builds presence t ∧ LabelledBy o.declarations t x

section Labelled

variable {presence : Presence} {xs ys : List Source} {o o' : Output} {us rs : List PatternSite} {ls : List Label}

theorem LabelledBy.mono {ds ds' : List Declaration} {t : TypeDecl} {x : Source} (h : LabelledBy ds t x)
    (hsub : ds ⊆ ds') : LabelledBy ds' t x := by
  obtain ⟨ls, huses, horigins, hconsts⟩ := h
  exact ⟨ls, huses, horigins, fun l hl => hsub (hconsts l hl)⟩

theorem Output.Labelled.mono (h : o.Labelled presence xs) (hsub : xs ⊆ ys) : o.Labelled presence ys where
  reserved := h.reserved
  named := h.named
  used := h.used
  distinct := h.distinct
  origin t ht := by
    obtain ⟨x, hx, hbuilds⟩ := h.origin t ht
    exact ⟨x, hsub hx, hbuilds⟩

theorem Output.Labelled.of_same (h : o.Labelled presence xs) (hds : o'.declarations = o.declarations)
    (hnames : o'.constants = o.constants) : o'.Labelled presence xs where
  reserved := by
    unfold Output.Reserved
    rw [hds, hnames]
    exact h.reserved
  named := by
    rw [hnames]
    exact h.named
  used := by
    rw [hds, hnames]
    exact h.used
  distinct := by
    rw [hds]
    exact h.distinct
  origin := by
    rw [hds]
    exact h.origin

/-- A declaration without patterns, whose name is not that of a pattern constant. -/
theorem Output.Labelled.push (h : o.Labelled presence xs) {d : Declaration}
    (hds : o'.declarations = o.declarations ++ [d]) (hnames : o'.constants = o.constants) (hd : d.sites = [])
    (htype : ∀ t, d ≠ .type t) (hname : ∀ name, d.name? = some name → ¬PatternName name) : o'.Labelled presence xs where
  reserved e he name hename hpattern := by
    rw [hds, List.mem_append, List.mem_singleton] at he
    rw [hnames]
    rcases he with he | rfl
    · exact h.reserved e he name hename hpattern
    · exact absurd hpattern (hname name hename)
  named := by
    rw [hnames]
    exact h.named
  used := by
    rw [hds, hnames]
    simpa [hd] using h.used
  distinct := by
    rw [hds]
    simpa [hd] using h.distinct
  origin t ht := by
    rw [hds, List.mem_append, List.mem_singleton] at ht
    obtain ⟨x, hx, hbuilds, hby⟩ := h.origin t (ht.resolve_right fun heq => htype t heq.symm)
    exact ⟨x, hx, hbuilds, hby.mono (hds ▸ List.subset_append_left _ _)⟩

/-- Further constants for labels. -/
theorem Output.Extends.labelled (he : o.Extends o' us rs ls) (h : o.Labelled presence xs) :
    o'.Labelled presence xs ∧ o'.declarations.flatMap Declaration.sites = o.declarations.flatMap Declaration.sites := by
  have hsites : o'.declarations.flatMap Declaration.sites = o.declarations.flatMap Declaration.sites := by
    have hnone : (ls.map fun l => Declaration.const l.const).flatMap Declaration.sites = [] := by
      refine List.flatMap_eq_nil_iff.2 fun d hd => ?_
      obtain ⟨l, -, rfl⟩ := List.mem_map.1 hd
      rfl
    rw [he.declarations, List.flatMap_append, hnone, List.append_nil]
  refine ⟨⟨he.reserved h.reserved, fun name hname => ?_, fun u hu => ?_, hsites ▸ h.distinct, fun t ht => ?_⟩, hsites⟩
  · rcases (he.labels.taken name).1 hname with hname | hname
    · exact h.named name hname
    · obtain ⟨l, hl, rfl⟩ := List.mem_map.1 hname
      exact (he.labels.fresh l hl).2
  · exact (he.labels.taken u.text).2 (.inl (h.used u (hsites ▸ hu)))
  · rw [he.declarations, List.mem_append] at ht
    rcases ht with ht | ht
    · obtain ⟨x, hx, hbuilds, hby⟩ := h.origin t ht
      exact ⟨x, hx, hbuilds, hby.mono (he.declarations ▸ List.subset_append_left _ _)⟩
    · obtain ⟨l, -, hl⟩ := List.mem_map.1 ht
      cases hl

/-- **A type is declared** after the constants for the patterns in its attributes. If its name is taken, only the
constants are left. -/
theorem Output.Labelled.declareType (h : o.Labelled presence xs) (he : o.Extends o' us rs ls) {x : Source}
    {t : TypeDecl} (hx : x.Builds presence t) (hmild : Mild x.name) (huses : t.sites = us) (horigins : x.sites = rs) :
    ((declare (.type t)).run o').2.Labelled presence (x :: xs) := by
  obtain ⟨hall, hsites⟩ := he.labelled h
  rcases declarations_declare (.type t) o' with ⟨hsame, -⟩ | ⟨hmore, -⟩
  · exact (hall.of_same hsame rfl).mono (List.subset_cons_self _ _)
  · have htaken : ((declare (.type t)).run o').2.constants = o'.constants := rfl
    have htexts : t.sites.map PatternSite.text = ls.map Label.name := by
      rw [huses, he.labels.uses, List.map_map]
      rfl
    have hmem : ∀ name ∈ t.sites.map PatternSite.text, name ∈ o'.constants.taken ∧ name ∉ o.constants.taken := by
      intro name hname
      rw [htexts] at hname
      obtain ⟨l, hl, rfl⟩ := List.mem_map.1 hname
      exact ⟨(he.labels.taken l.name).2 (.inr hname), (he.labels.fresh l hl).1⟩
    have hflat : ((declare (.type t)).run o').2.declarations.flatMap Declaration.sites =
        o.declarations.flatMap Declaration.sites ++ t.sites := by
      rw [hmore, List.flatMap_append, hsites]
      exact congrArg _ (List.append_nil _)
    refine ⟨fun d hd name hname hpattern => ?_, hall.named, fun u hu => ?_, ?_, fun t' ht' => ?_⟩
    · rw [hmore, List.mem_append, List.mem_singleton] at hd
      rcases hd with hd | rfl
      · exact hall.reserved d hd name hname hpattern
      · rw [← Option.some.inj hname, hx.name] at hpattern
        exact absurd hmild hpattern.not_mild
    · rw [hflat, List.mem_append] at hu
      rcases hu with hu | hu
      · exact hall.used u (hsites ▸ hu)
      · exact (hmem u.text (List.mem_map_of_mem hu)).1
    · -- what has been named before was in use before, and the new names were not
      rw [hflat, List.map_append]
      refine List.nodup_append.2 ⟨h.distinct, htexts ▸ he.labels.distinct, fun a ha b hb hab => ?_⟩
      obtain ⟨u, hu, rfl⟩ := List.mem_map.1 ha
      exact (hmem b hb).2 (hab ▸ h.used u hu)
    · have hsub : o'.declarations ⊆ ((declare (.type t)).run o').2.declarations := by
        rw [hmore]
        exact List.subset_append_left _ _
      rw [hmore, List.mem_append, List.mem_singleton] at ht'
      rcases ht' with ht' | ht'
      · obtain ⟨y, hy, hbuilds, hby⟩ := hall.origin t' ht'
        exact ⟨y, List.mem_cons_of_mem _ hy, hbuilds, hby.mono hsub⟩
      · cases ht'
        refine ⟨x, List.mem_cons_self, hx, ls, huses.trans he.labels.uses, horigins.trans he.labels.origins,
          fun l hl => hsub ?_⟩
        rw [he.declarations]
        exact List.mem_append_right _ (List.mem_map.2 ⟨l, hl, rfl⟩)

end Labelled

/-! ## Computations -/

/-- A computation that turns labelled outputs for some sources into labelled outputs for others. -/
def LabelsFor {α : Type} (presence : Presence) (xs : List Source) (m : Emit α) (ys : List Source) : Prop :=
  ∀ o : Output, o.Labelled presence xs → (m.run o).2.Labelled presence ys

section LabelsFor

variable {α β : Type} {presence : Presence} {xs ys zs : List Source}

theorem LabelsFor.pure (a : α) : LabelsFor presence xs (pure a) xs := fun _ h => h

theorem LabelsFor.bind {m : Emit α} {f : α → Emit β} (h : LabelsFor presence xs m ys)
    (hf : ∀ a, LabelsFor presence ys (f a) zs) : LabelsFor presence xs (m >>= f) zs := fun o ho => hf _ _ (h o ho)

theorem LabelsFor.mono {m : Emit α} (h : LabelsFor presence xs m ys) (hsub : ys ⊆ zs) : LabelsFor presence xs m zs :=
  fun o ho => (h o ho).mono hsub

theorem addImport_labels (module item : String) : LabelsFor presence xs (addImport module item) xs :=
  fun o h => h.of_same (declarations_addImport module item o) rfl

/-- A declaration without patterns. -/
theorem declare_labels {d : Declaration} (hd : d.sites = []) (htype : ∀ t, d ≠ .type t)
    (hname : ∀ name, d.name? = some name → ¬PatternName name) : LabelsFor presence xs (declare d) xs := by
  intro o h
  rcases declarations_declare d o with ⟨hsame, -⟩ | ⟨hmore, -⟩
  · exact h.of_same hsame rfl
  · exact h.push hmore rfl hd htype hname

theorem declareImpl_labels (b : ImplBlock) : LabelsFor presence xs (declare (.impl b)) xs :=
  declare_labels rfl (by nofun) (by nofun)

/-- A constant whose name has no `N` is not for a pattern. -/
theorem declareConst_labels {k : Constant} (h : 'N' ∉ k.name.toList) :
    LabelsFor presence xs (declare (.const k)) xs := by
  refine declare_labels rfl (by nofun) fun name hname hpattern => h ?_
  obtain rfl : k.name = name := Option.some.inj hname
  exact hpattern.2.subset (by decide)

theorem forM_declareImpl_labels : ∀ blocks : List ImplBlock,
    LabelsFor presence xs (blocks.forM fun b => declare (.impl b)) xs
  | [] => .pure _
  | b :: rest => (declareImpl_labels b).bind fun _ => forM_declareImpl_labels rest

/-- A type without patterns. -/
theorem declareType_labels {x : Source} {t : TypeDecl} (hx : x.Builds presence t) (hmild : Mild x.name)
    (ht : t.sites = []) (hxs : x.sites = []) : LabelsFor presence xs (declare (.type t)) (x :: xs) :=
  fun o h => h.declareType (.refl o) hx hmild ht hxs

end LabelsFor

/-! ## Types -/

section Types

variable {presence : Presence} {xs : List Source}

/-- A record with derived traits has the patterns of its fields. -/
theorem sites_record (name : String) (docs traits : List String) (fields : List Code.Field) :
    (⟨name, docs, [.derive traits], .record fields⟩ : TypeDecl).sites = fields.flatMap Code.Field.sites := by
  have hderive : Meta.sitesAll name 0 [.derive traits] = [] := Meta.sitesAll_eq_nil fun m hm => by
    rw [List.mem_singleton.1 hm, Meta.sites_derive]
  rw [TypeDecl.sites, TypeDecl.attributes, List.flatMap_cons, hderive, List.nil_append, List.flatMap_map]
  rfl

/-- A record whose fields have no attributes. -/
theorem sites_record_plain (name : String) (docs traits : List String) {fields : List Code.Field}
    (h : ∀ f ∈ fields, f.attrs = []) : (⟨name, docs, [.derive traits], .record fields⟩ : TypeDecl).sites = [] := by
  rw [sites_record]
  refine List.flatMap_eq_nil_iff.2 fun f hf => ?_
  rw [Code.Field.sites, h f hf, Meta.sitesAll]

theorem attrs_variants : ∀ (members taken : List String), ∀ v ∈ variants taken members, ∃ wire, v.attrs = [.rename wire]
  | [], _, v, h => by rw [variants] at h; cases h
  | member :: members, _, v, h => by
    rw [variants] at h
    rcases List.mem_cons.1 h with rfl | h
    · exact ⟨member, rfl⟩
    · exact attrs_variants members _ v h

theorem sites_enumeration (name : String) (docs traits members : List String) :
    (⟨name, docs, [.derive traits], .enumeration (variants [] members)⟩ : TypeDecl).sites = [] := by
  refine List.flatMap_eq_nil_iff.2 fun a ha => Meta.sitesAll_eq_nil fun m hm => ?_
  rcases List.mem_cons.1 ha with rfl | ha
  · rw [List.mem_singleton.1 hm, Meta.sites_derive]
  · obtain ⟨v, hv, rfl⟩ := List.mem_map.1 ha
    obtain ⟨wire, hwire⟩ := attrs_variants members [] v hv
    rw [hwire] at hm
    rw [List.mem_singleton.1 hm, Meta.sites_rename]

/-- A schema is declared, unless its name is taken. -/
theorem emitNode_labels (root : String) {n : Node} (hmild : Mild n.name) :
    LabelsFor presence xs (emitNode root n) (.node n :: xs) := by
  intro o ho
  change (StateT.run (if o.builder.isDeclared n.name = true then _ else _ : Emit Unit) o).2.Labelled _ _
  split
  · exact ho.mono (List.subset_cons_self _ _)
  · revert o
    cases hk : n.kind with
    | object fields =>
      refine fun o ho _ => LabelsFor.bind (addImport_labels _ _) (fun _ => ?_) o ho
      refine (addImport_labels _ _).bind fun _ => ?_
      refine (addImport_labels _ _).bind fun _ o ho => ?_
      obtain ⟨ls, hls⟩ := fieldDecls_extends n.name fields ho.reserved
      refine ho.declareType hls ⟨o, ?_⟩ hmild (sites_record _ _ _ _) ?_
      · rw [nodeDecl, hk]
        rfl
      · rw [Source.sites, hk]
    | enumeration members =>
      refine fun o ho _ => LabelsFor.bind (addImport_labels _ _) (fun _ => ?_) o ho
      refine (addImport_labels _ _).bind fun _ => ?_
      have hbuilds : (Source.node n).Builds presence (nodeDecl n { builder := { name := "" } }) := ⟨_, rfl⟩
      rw [nodeDecl, hk] at hbuilds
      refine declareType_labels hbuilds hmild (sites_enumeration _ _ _ _) ?_
      rw [Source.sites, hk]
    | scalar kind | array element | reference target =>
      refine fun o ho _ => declareType_labels (x := .node n) ⟨o, by rw [nodeDecl, hk]⟩ hmild rfl ?_ o ho
      rw [Source.sites, hk]

theorem emitNodes_labels (root : String) : ∀ (nodes : List Node) {xs : List Source}, (∀ n ∈ nodes, Mild n.name) →
    LabelsFor presence xs (emitNodes root nodes) (nodes.map .node ++ xs)
  | [], _, _ => .pure _
  | n :: ns, xs, h => by
    obtain ⟨hn, hns⟩ := List.forall_mem_cons.1 h
    refine ((emitNode_labels root hn).bind fun _ => emitNodes_labels root ns hns).mono fun x hx => ?_
    simp only [List.map_cons, List.cons_append, List.mem_cons, List.mem_append] at hx ⊢
    tauto

theorem emitRequest_labels (root : String) {name : String} (hmild : Mild name) (op : Operation) :
    LabelsFor presence xs (emitRequest root name presence op) (.request name op :: xs) := by
  have hparts : (op.request.parameterParts.map partField).flatMap Code.Field.sites = [] := by
    refine List.flatMap_eq_nil_iff.2 fun f hf => ?_
    obtain ⟨part, -, rfl⟩ := List.mem_map.1 hf
    rfl
  have hsites (docs traits : List String) (body : List Code.Field) : (⟨name, docs, [.derive traits],
      .record (op.request.parameterParts.map partField ++ body)⟩ : TypeDecl).sites = body.flatMap Code.Field.sites := by
    rw [sites_record, List.flatMap_append, hparts, List.nil_append]
  refine (addImport_labels _ _).bind fun _ => ?_
  cases hbody : op.request.body with
  | none =>
    refine declareType_labels ⟨{ builder := { name := "" } }, ?_⟩ hmild (hsites _ _ []) ?_
    · rw [requestDecl, bodyFields, hbody]
      rfl
    · rw [Source.sites, hbody]
      rfl
  | some body =>
    intro o ho
    obtain ⟨ls, hls⟩ := bodyField_extends ho.reserved name presence body
    refine ho.declareType (x := .request name op) hls ⟨o, ?_⟩ hmild ((hsites _ _ _).trans (List.append_nil _)) ?_
    · rw [requestDecl, bodyFields, hbody]
      rfl
    · rw [Source.sites, hbody]
      exact List.append_nil _

theorem emitPayloads_labels : ∀ (payloads : List (ResponseVariant × String)) {xs : List Source},
    (∀ p ∈ payloads, Mild p.2) →
    LabelsFor presence xs (emitPayloads payloads) (payloads.map (fun p => .payload p.2 p.1) ++ xs)
  | [], _, _ => .pure _
  | (v, name) :: rest, xs, h => by
    obtain ⟨hname, hrest⟩ := List.forall_mem_cons.1 h
    have hplain : (payloadDecl name v).sites = [] := by
      refine sites_record_plain _ _ _ fun f hf => ?_
      rcases List.mem_append.1 hf with hf | hf
      · obtain ⟨body, -, rfl⟩ := List.mem_map.1 hf
        rfl
      · obtain ⟨headers, -, rfl⟩ := List.mem_map.1 hf
        rfl
    refine ((addImport_labels _ _).bind fun _ => LabelsFor.bind
      (declareType_labels (x := .payload name v) rfl hname hplain rfl) fun _ =>
        emitPayloads_labels rest hrest).mono fun x hx => ?_
    simp only [List.map_cons, List.cons_append, List.mem_cons, List.mem_append] at hx ⊢
    tauto

theorem emitResponses_labels (root : String) (op : Operation) (m : ResponseModel)
    (hmild : ∀ x ∈ responseSources op m, Mild x.name) :
    LabelsFor presence xs (emitResponses root op m) (responseSources op m ++ xs) := by
  obtain ⟨henvelope, hpayloads⟩ := List.forall_mem_cons.1 hmild
  have hplain : (envelopeDecl op m).sites = [] := by
    refine sites_record_plain _ _ _ fun f hf => ?_
    rcases List.mem_cons.1 hf with rfl | hf
    · rfl
    · obtain ⟨p, -, rfl⟩ := List.mem_map.1 hf
      rfl
  refine (addImport_labels _ _).bind fun _ => ?_
  refine (emitPayloads_labels _ fun p hp => hpayloads _ (List.mem_map.2 ⟨p, hp, rfl⟩)).bind fun _ => ?_
  refine (declareType_labels (x := .envelope op m) rfl henvelope hplain rfl).bind fun _ => ?_
  exact (forM_declareImpl_labels _).bind fun _ => declareImpl_labels _

end Types

/-! ## Operations one after another -/

section Operations

variable {env : Env} {s : State} {p : Progress} {done : List Named}

theorem takeName_softens {wanted : String} (h : Mild wanted) : Softens (takeName wanted) fun _ => True :=
  allocateName_softens h (fun _ => True) fun _ => trivial

theorem takeNames_softens : ∀ names : List (Nat × String), (∀ p ∈ names, Mild p.2) →
    Softens (takeNames names) fun _ => True
  | [], _ => .pure trivial
  | (_, _) :: rest, h => by
    obtain ⟨hwanted, hrest⟩ := List.forall_mem_cons.1 h
    refine (takeName_softens hwanted).bind fun name _ => ?_
    refine (takeNames_softens rest hrest).bind fun names _ => ?_
    exact .pure trivial

/-- The names of an operation have small letters. -/
theorem takeOperationNames_softens {α : Type} (op : Operation) (f : String → ResponseModel → α) :
    Softens (do
      let request ← takeName (requestName op)
      let m ← takeResponseNames op
      return f request m) fun _ => True := by
  have hrequest : Lowered (requestName op) := .append_right ⟨'e', by decide, by decide⟩
  have hbase : Lowered (pascalCase op.operationId ++ "Response") := .append_right ⟨'e', by decide, by decide⟩
  have hresponses : Softens (takeResponseNames op) fun _ => True := by
    refine (takeName_softens (.inl hbase)).bind fun _ _ => ?_
    refine (takeNames_softens _ fun p hp => ?_).bind fun _ _ => .pure trivial
    obtain ⟨status, -, rfl⟩ := List.mem_map.1 hp
    exact .inl hbase.append_left
  refine (takeName_softens (.inl hrequest)).bind fun request _ => ?_
  refine hresponses.bind fun m _ => ?_
  exact .pure trivial

/-- What has been reached after some operations: type names are mild, and the output is labelled for the declared
schemas and the sources of these operations. -/
structure Staged (env : Env) (done : List Named) (p : Progress) (s : State) : Prop where
  orderly : Orderly env [] s
  mild : s.IsMild
  operations : p.operations = done.map (·.1)
  responses : p.responses = done.map (·.2.1)
  output : p.output.Labelled env.presence ((s.declarationsSince 0).map .node ++ done.flatMap operationSources)

/-- The declared schemas have mild names. -/
theorem mild_declarations (ho : Orderly env [] s) (hs : s.IsMild) (mark : Nat) :
    ∀ n ∈ s.declarationsSince mark, Mild n.name := by
  intro n hn
  have hmem : n ∈ s.declarationsSince 0 := ((List.drop_sublist mark _).filterMap id).subset hn
  exact hs.taken _ (ho.declared _ (List.mem_map_of_mem hmem))

/-- One more operation. -/
theorem compileOperation_staged (hl : env.Legible) (h : Staged env done p s) (root : String) (raw : RawOperation) :
    Ends (compileOperation env root p raw) s (fun p' s' => ∃ e, Staged env (done ++ [e]) p' s') fun _ _ => True := by
  have hresolve := Ends.and (raw.resolve_declares h.orderly) (raw.resolve_softens hl s h.mild)
  refine ends_bind.2 (ends_get.2 (ends_bind.2 (Ends.mono hresolve ?_ fun _ _ _ => trivial)))
  intro op s₁ ⟨⟨new, ho₁, hg₁, _⟩, hs₁, _⟩
  refine ends_bind.2 (ends_get.2 (Ends.mono
    (Ends.and (takeOperationNames_held ho₁ op _) (takeOperationNames_softens op _ s₁ hs₁)) ?_ fun _ _ _ => trivial))
  rintro p' s₂ ⟨⟨request, m, rfl, ho₂, hg₂, -, -, hsources⟩, hs₂, -⟩
  have hmild : ∀ x ∈ operationSources (op, m, request), Mild x.name := fun x hx =>
    hs₂.taken x.name (hsources x hx).1.taken
  obtain ⟨hrequest, hresponses⟩ := List.forall_mem_cons.1 hmild
  have hlabels : LabelsFor env.presence ((s.declarationsSince 0).map .node ++ done.flatMap operationSources) (do
      emitNodes root (s₁.declarationsSince s.declared.size)
      emitRequest root request env.presence op
      emitResponses root op m) _ :=
    (emitNodes_labels root _ (mild_declarations ho₁ hs₁ _)).bind fun _ => (emitRequest_labels root hrequest op).bind
      fun _ => emitResponses_labels root op m hresponses
  refine ⟨(op, m, request), ho₂, hs₂, by simp [h.operations], by simp [h.responses],
    (hlabels p.output h.output).mono fun x hx => ?_⟩
  rw [sources_after hg₁ hg₂]
  simp only [operationSources, List.mem_append, List.mem_cons] at hx ⊢
  tauto

theorem compileOperations_staged (hl : env.Legible) (root : String) : ∀ (raws : List RawOperation) {p : Progress}
    {s : State} {done : List Named}, Staged env done p s →
    Ends (compileOperations env root raws p) s (fun p' s' => ∃ done', Staged env done' p' s') fun _ _ => True
  | [], _, _, _, h => ends_pure.2 ⟨_, h⟩
  | raw :: raws, _, _, _, h => (compileOperation_staged hl h root raw).bind fun _ _ ⟨_, h₁⟩ =>
    compileOperations_staged hl root raws h₁

/-- **Assembling a file** labels all patterns. -/
theorem assemble_staged (hl : env.Legible) (root : String) (raws : List RawOperation) :
    Ends (assemble env root raws) (State.initial env) (fun p s => ∃ done, Staged env done p s) fun _ _ => True := by
  have hresolve := Ends.and (resolveKeys_declares (build_declares env (env.steps 0)) env.rootKeys (orderly_initial env))
    (resolveKeys_softens hl (env.steps 0) env.rootKeys _ hl.isMild_initial)
  refine ends_bind.2 (Ends.mono hresolve ?_ fun _ _ _ => trivial)
  intro entries s ⟨⟨new, ho, hg, _⟩, hs, _⟩
  let start : Emit Unit := do
    declare (.const (basePathConst env.description))
    declare (.const (routesConst raws))
    emitNodes root (s.declarationsSince 0)
  have hbase : 'N' ∉ (basePathConst env.description).name.toList := (by decide : 'N' ∉ "BASE_PATH".toList)
  have hroutes : 'N' ∉ (routesConst raws).name.toList := (by decide : 'N' ∉ "ROUTES".toList)
  have hlabels : LabelsFor env.presence [] start ((s.declarationsSince 0).map .node ++ []) :=
    (declareConst_labels hbase).bind fun _ => (declareConst_labels hroutes).bind fun _ =>
      emitNodes_labels root _ (mild_declarations ho hs 0)
  have hempty : Output.Labelled env.presence [] { builder := { name := env.description.slug } } :=
    ⟨by nofun, by nofun, by nofun, List.nodup_nil, by nofun⟩
  have hstart : Staged env [] ⟨(start.run { builder := { name := env.description.slug } }).2, [], []⟩ s :=
    ⟨ho, hs, rfl, rfl, hlabels _ hempty⟩
  exact ends_bind.2 (ends_get.2 (compileOperations_staged hl root raws hstart))

end Operations

/-! ## Compilations -/

section Compile

variable {config : Config} {d : Description} {c : Compilation}

/-- **Every pattern annotation refers to the right constant.** In a compilation where every key of a named schema and of
a property in it has a letter or a digit, the attributes of the file name a different constant for every pattern in
them, and none has a type name that was given out. Every type in the file is built from a source. The patterns in its
attributes are, one for one, those in the rules of the source, with the same places and at the same depths: each names
the one declaration of its name, which is the constant with the source of the pattern. Names of parameters and headers
need no letter, since what they stand in has one. -/
theorem compile_patterns (h : compile config d = .ok c) (hl : Env.Legible ⟨d, config.presence⟩) : ∃ s done,
    Run config d c s done ∧ (c.file.sites.map PatternSite.text).Nodup ∧
    (∀ u ∈ c.file.sites, u.text ∉ s.names.taken) ∧
    ∀ t, .type t ∈ c.file.declarations →
      ∃ x ∈ (s.declarationsSince 0).map Source.node ++ done.flatMap operationSources, x.Builds config.presence t ∧
        List.Forall₂ (fun u r => u.place = r.place ∧ u.depth = r.depth ∧
          c.file.declarations.filter (fun e => e.name? == some u.text) =
            [.const ⟨u.text, [], textRef, .str r.text⟩]) t.sites x.sites := by
  obtain ⟨raws, notes, p, s, hops, hrun, hfile, hoperations, hresponses⟩ := compile_run h
  obtain ⟨_, hassembled⟩ := (assemble_assembled config.importRoot raws).of_ok hrun
  obtain ⟨done, hdone⟩ := (assemble_staged hl config.importRoot raws).of_ok hrun
  have hds : c.file.declarations = p.output.declarations := congrArg File.declarations hfile
  have hdistinct := hassembled.output.distinct
  have hsites : c.file.sites = p.output.declarations.flatMap Declaration.sites := by rw [File.sites, hds]
  refine ⟨s, done, ⟨⟨raws, notes, p, hops, hrun, hfile⟩, hoperations.trans hdone.operations,
    hresponses.trans hdone.responses⟩, hsites ▸ hdone.output.distinct, fun u hu htaken => ?_, fun t ht => ?_⟩
  · have hpattern := hdone.output.named u.text (hdone.output.used u (hsites ▸ hu))
    exact hpattern.not_mild (hdone.mild.taken u.text htaken)
  · obtain ⟨x, hx, hbuilds, ls, huses, horigins, hconsts⟩ := hdone.output.origin t (hds ▸ ht)
    refine ⟨x, hx, hbuilds, ?_⟩
    rw [huses, horigins, List.forall₂_map_left_iff, List.forall₂_map_right_iff, List.forall₂_same, hds]
    exact fun l hl => ⟨rfl, rfl, filter_eq_singleton hdistinct (hconsts l hl) rfl⟩

end Compile

/-- A schema of texts with a pattern. -/
def textSchema (source : String) : Json := .obj [("type", .str "string"), ("pattern", .str source)]

/-- A schema of records in which texts have patterns, one of them in an array. -/
def postSchema : Json :=
  let tags : Json := .obj [("type", .str "array"), ("items", textSchema "^b")]
  .obj [("type", .str "object"), ("properties", .obj [("slug", textSchema "^a"), ("tags", tags)])]

/-- A description with the schema of a post. -/
def postsDescription : Description :=
  ⟨"", "", "", "", .obj [("components", .obj [("schemas", .obj [("Post", postSchema)])])], []⟩

theorem not_hasKey_textSchema (source key : String) : ¬HasKey (textSchema source) key := by
  intro h
  cases h with
  | own hmem | property hmem => cases hmem
  | items hitems => cases hitems
  | member hall => cases hall
  | union hunion => cases hunion

theorem legible_postSchema {key : String} (h : HasKey postSchema key) : Legible key := by
  cases h with
  | own hmem =>
    rcases List.mem_cons.1 hmem with hmem | hmem
    · cases hmem
      exact ⟨'s', by decide, by decide⟩
    · cases List.mem_singleton.1 hmem
      exact ⟨'t', by decide, by decide⟩
  | property hmem h =>
    rcases List.mem_cons.1 hmem with hmem | hmem
    · cases hmem
      exact absurd h (not_hasKey_textSchema _ _)
    · cases List.mem_singleton.1 hmem
      cases h with
      | own hmem | property hmem => cases hmem
      | items hitems h =>
        cases hitems
        exact absurd h (not_hasKey_textSchema _ _)
      | member hall => cases hall
      | union hunion => cases hunion
  | items hitems => cases hitems
  | member hall => cases hall
  | union hunion => cases hunion

theorem legible_posts : Env.Legible ⟨postsDescription, .standard⟩ := by
  rintro ⟨doc, name⟩ raw hraw
  cases doc with
  | some path => cases hraw
  | none =>
    obtain ⟨⟨found, _⟩, hfind, rfl⟩ := Option.map_eq_some_iff.1 hraw
    obtain ⟨rfl, rfl⟩ := Prod.mk.inj (List.mem_singleton.1 (List.mem_of_find?_eq_some hfind))
    obtain rfl : "Post" = name := by simpa using List.find?_some hfind
    exact ⟨⟨'P', by decide, by decide⟩, fun key h => legible_postSchema h⟩

theorem resolve_posts : Ends (assemble ⟨postsDescription, .standard⟩ "brrtgen" [])
    (State.initial ⟨postsDescription, .standard⟩)
    (fun _ s => (s.declarationsSince 0).map (fun n => (n.name, (Source.node n).sites)) =
      [("Post", [⟨"slug", 0, "^a"⟩, ⟨"tags", 1, "^b"⟩])]) fun _ _ => False := by
  decide +kernel

theorem compile_posts : (compile {} postsDescription).toOption.map (·.operations.length) = some 0 := by
  decide +kernel

/-- What the resolver has declared at the end. -/
theorem Run.declared_posts {c : Compilation} {s : State} {done : List Named} (h : Run {} postsDescription c s done) :
    (s.declarationsSince 0).map (fun n => (n.name, (Source.node n).sites)) =
      [("Post", [⟨"slug", 0, "^a"⟩, ⟨"tags", 1, "^b"⟩])] := by
  obtain ⟨raws, notes, p, hops, hassemble, -⟩ := h.exists_run
  have hnone : (operationsOf postsDescription).run [] = .ok [] [] := rfl
  rw [hnone] at hops
  cases hops
  exact resolve_posts.of_ok hassemble

theorem compile_patterns_posts : ∃ c a b, compile {} postsDescription = .ok c ∧ a ≠ b ∧
    c.file.declarations.filter (fun e => e.name? == some a) = [.const ⟨a, [], textRef, .str "^a"⟩] ∧
    c.file.declarations.filter (fun e => e.name? == some b) = [.const ⟨b, [], textRef, .str "^b"⟩] := by
  obtain ⟨c, hc, hlength⟩ := exists_compiled compile_posts
  obtain ⟨s, done, hrun, -, -, htypes⟩ := compile_patterns hc legible_posts
  obtain ⟨s', done', p, hrun', hfile, hdone⟩ := compile_assembled hc
  obtain ⟨n, hn, hview⟩ := List.map_eq_singleton_iff.1 hrun'.declared_posts
  obtain ⟨e, he, hcases⟩ := hdone.exists_node (hn ▸ List.mem_cons_self)
  rw [← hfile] at he
  rw [(Prod.mk.inj hview).1] at hcases
  rcases hcases with ⟨o, rfl⟩ | ⟨-, hshouting⟩
  · obtain ⟨x, hx, -, haligned⟩ := htypes _ (List.mem_of_mem_filter (he ▸ List.mem_singleton_self _))
    have hnone : done = [] := by
      rw [hrun.operations, List.length_map] at hlength
      exact List.eq_nil_of_length_eq_zero hlength
    obtain ⟨m, hm, hsites⟩ := List.map_eq_singleton_iff.1 hrun.declared_posts
    rw [hnone, hm, List.map_singleton, List.flatMap_nil, List.append_nil, List.mem_singleton] at hx
    rw [hx, (Prod.mk.inj hsites).2] at haligned
    obtain ⟨u, us, ⟨-, -, ha⟩, hrest, -⟩ := List.forall₂_cons_right_iff.1 haligned
    obtain ⟨v, -, ⟨-, -, hb⟩, -, -⟩ := List.forall₂_cons_right_iff.1 hrest
    refine ⟨c, u.text, v.text, hc, fun hsame => ?_, ha, hb⟩
    rw [hsame, hb] at ha
    simp [Expression.str] at ha
  · exact absurd hshouting (by decide)

end ApiForge.Emission

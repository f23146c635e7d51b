import ApiForge.Proofs.Operation.Provenance
import ApiForge.Proofs.Route.Table
import ApiForge.Proofs.Route.Template

/-!
# Every operation can be reached

The paths made from the template of an operation, below the base path, lead to the operation or to one that was declared
before it.

* `route_read`: the template of an operation has been read from a path.
* `operation_reachable`: a request for such a path is always matched.
-/

namespace ApiForge

open Route Compilation

variable {config : Config} {d : Description} {c : Compilation}

theorem Extract.operation_route (route : Template) (item members : Json.Members) (method id : String)
    (notes : List Diagnostic) : Ends (operation d route item members method id) notes (fun op _ => op.route = route)
      fun _ _ => True := by
  refine (Ends.trivial _ _).bind fun _ _ _ => ?_
  refine (Ends.trivial _ _).bind fun _ _ _ => ?_
  refine (Ends.trivial _ _).bind fun _ _ _ => ?_
  refine (Ends.trivial _ _).bind fun _ _ _ => ?_
  exact (Ends.trivial _ _).bind fun _ _ _ => ends_pure.2 rfl

/-- The template of an operation has been read from a path. -/
theorem route_read (hc : compile config d = .ok c) {op : Operation} (hop : op ∈ c.operations) : op.route.Read := by
  have hgives : ∀ path route, Template.parse path = .ok route → Extract.Gives d route (·.route.Read) := by
    intro path route hparse item members method id notes
    refine (Extract.operation_route route item members method id notes).mono (fun raw _ hraw => ?_) fun _ _ h => h
    show raw.route.Read
    rw [hraw]
    exact (Template.parse_read hparse).2
  obtain ⟨raw, hresolved, hread⟩ := compile_forall hc hgives hop
  rw [hresolved.route]
  exact hread

theorem Route.Template.exists_fill {t : Template} (h : t.Read) (values : List String) :
    ∃ rest, t.fill values = "/" ++ rest := by
  refine ⟨String.ofList (Text.joinWith ['/'] (filledAll t.segments (values.map String.toList))), ?_⟩
  rw [← String.toList_inj, Template.toList_fill h, toList_slash, String.toList_ofList]

/-- **Every operation can be reached.** Put texts without slashes, none of them empty, in place of the placeholders of
its template. The request for this path below the base path is matched: by the operation itself, with these texts as
captures, or by an operation of the same method that was declared before it. -/
theorem operation_reachable (hc : compile config d = .ok c) {before after : List Operation} {op : Operation}
    (hops : c.operations = before ++ op :: after) {values : List String}
    (hlen : values.length = op.route.paramNames.length) (hvalues : ∀ v ∈ values, v ≠ "" ∧ '/' ∉ v.toList) :
    ∃ entry captures, c.routes.route op.method (d.basePath ++ op.route.fill values) = .matched entry captures ∧
      (entry = routeOf op ∧ captures = op.route.paramNames.zip values ∨
        ∃ earlier ∈ before, earlier.method = op.method ∧ entry = routeOf earlier) := by
  have hread : op.route.Read := route_read hc (by rw [hops]; exact List.mem_append_right _ List.mem_cons_self)
  have htakes : (routeOf op).Takes op.method (op.route.fill values) (op.route.paramNames.zip values) :=
    ⟨rfl, Template.matchPath_fill hread hlen hvalues⟩
  -- The search stops at the operation at the latest.
  obtain ⟨entry, hfirst, hplace⟩ := exists_isFirst (P := Entry.Matches op.method (op.route.fill values))
    ⟨_, htakes⟩ (after.map routeOf) (before.map routeOf)
  obtain ⟨captures, htakes'⟩ : entry.Matches op.method (op.route.fill values) := by
    obtain ⟨_, _, _, hmatches, _⟩ := hfirst
    exact hmatches
  have hroute : c.routes.route op.method (d.basePath ++ op.route.fill values) = .matched entry captures := by
    obtain ⟨_, _, _, _, hroutes⟩ := compile_resolved hc
    obtain ⟨rest, hrest⟩ := Template.exists_fill hread values
    have hbelow : Below c.routes.basePath (d.basePath ++ op.route.fill values) (op.route.fill values) := by
      rw [hroutes, hrest]
      exact below_append d.basePath rest
    rw [Table.route_of_below hbelow, Table.search_eq_matched_iff, hroutes, hops, List.map_append, List.map_cons]
    exact ⟨hfirst, htakes'⟩
  refine ⟨entry, captures, hroute, ?_⟩
  rcases hplace with rfl | hmem
  · exact .inl ⟨rfl, Match.matched.inj (htakes'.2.symm.trans htakes.2)⟩
  · obtain ⟨earlier, hearlier, rfl⟩ := List.mem_map.1 hmem
    exact .inr ⟨earlier, hearlier, htakes'.1, rfl⟩

/-- A description with a base path and two operations, the first of which takes some paths of the second. -/
def filesDescription : Description :=
  let get (id : String) : Json := .obj [("get", .obj [("operationId", .str id)])]
  ⟨"", "Files", "files", "/api", .obj [("paths", .obj
    [("/files/file\x7bid\x7d.json", get "fileById"), ("/files/\x7bname\x7d", get "fileByName")])], []⟩

theorem compile_filesDescription : (compile {} filesDescription).toOption.map
    (·.operations.map (·.route.paramNames)) = some [["id"], ["name"]] := by decide +kernel

theorem operation_reachable_files : ∃ c byId byName, compile {} filesDescription = .ok c ∧
    c.operations = [byId, byName] ∧ byName.route.paramNames = ["name"] ∧
    ∃ entry captures, c.routes.route byName.method ("/api" ++ byName.route.fill ["file.json"]) =
      .matched entry captures ∧ (entry = routeOf byName ∧ captures = [("name", "file.json")] ∨
        ∃ earlier ∈ [byId], earlier.method = byName.method ∧ entry = routeOf earlier) := by
  obtain ⟨c, h, hnames⟩ := exists_compiled compile_filesDescription
  obtain ⟨byId, rest, hops, -, hrest⟩ := List.map_eq_cons_iff.1 hnames
  obtain ⟨byName, rest, rfl, hname, hrest⟩ := List.map_eq_cons_iff.1 hrest
  obtain rfl := List.map_eq_nil_iff.1 hrest
  have hlen : ["file.json"].length = byName.route.paramNames.length := by rw [hname]; rfl
  have hreach := operation_reachable h (show c.operations = [byId] ++ byName :: [] from hops) hlen (by simp)
  rw [hname] at hreach
  exact ⟨c, byId, byName, h, hops, hname, hreach⟩

end ApiForge

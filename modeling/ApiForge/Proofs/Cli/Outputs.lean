import ApiForge.Cli.Batch
import ApiForge.Json.Printer
import ApiForge.Proofs.Description.Loading
import ApiForge.Proofs.Files.Path
import ApiForge.Proofs.Naming.Identifier
import Mathlib.Data.List.Nodup

/-!
# What a batch leaves on disk

Each description of a batch is loaded, compiled and written before the next one. Loading changes nothing, and a source
is written under the slug of its title. Different slugs lead to different locations, but one slug stands for many
titles, and of the sources that go to one path the last one stays.

* `locate_outputPath_inj`: outputs at one location have one path.
* `exists_ends_runBatch`: a batch ends.
* `generateFile_leaves`: what one description leaves in the workspace.
* `runBatch_leaves`: what a batch leaves in the workspace.
* `runBatch_overwrites`: a batch that succeeds without keeping its first source.
-/

namespace ApiForge.Cli

open Files.Path Naming

/-! ## Output paths -/

theorem isName_slug (title : String) : IsName (slug title) where
  noSlash h := by rcases mem_slug h with h | h <;> revert h <;> decide
  ne_empty := slug_ne_empty title
  ne_dot h := by
    have hdot : '.' ∈ (slug title).toList := by rw [h]; decide
    rcases mem_slug hdot with h | h <;> revert h <;> decide
  ne_dots h := by
    have hdot : '.' ∈ (slug title).toList := by rw [h]; decide
    rcases mem_slug hdot with h | h <;> revert h <;> decide

theorem isName_slug_rs (title : String) : IsName (slug title ++ ".rs") where
  noSlash h := by
    rw [String.toList_append, List.mem_append] at h
    rcases h with h | h
    · exact (isName_slug title).noSlash h
    · revert h; decide
  ne_empty h := by
    have hr : 'r' ∈ "".toList := h ▸ by simp
    revert hr; decide
  ne_dot h := by
    have hr : 'r' ∈ ".".toList := h ▸ by simp
    revert hr; decide
  ne_dots h := by
    have hr : 'r' ∈ "..".toList := h ▸ by simp
    revert hr; decide

theorem isName_mod : IsName "mod.rs" := ⟨by decide, by decide, by decide, by decide⟩

/-- **Outputs at one location have one path.** -/
theorem locate_outputPath_inj {w : Workspace} {l : Trail} (directory title title' : String) (scheme : OutputScheme)
    (h : w.locate (outputPath directory (slug title) scheme) = .ok l)
    (h' : w.locate (outputPath directory (slug title') scheme) = .ok l) :
    outputPath directory (slug title) scheme = outputPath directory (slug title') scheme := by
  cases scheme with
  | flat =>
    obtain ⟨m, -, hl⟩ := Workspace.follow_steps_join (isName_slug_rs title)
      (Workspace.locate_join (isName_slug_rs title) h)
    obtain ⟨m', -, hl'⟩ := Workspace.follow_steps_join (isName_slug_rs title')
      (Workspace.locate_join (isName_slug_rs title') h')
    have hname := (List.append_inj' (hl.symm.trans hl') (by simp only [List.length_singleton])).2
    rw [outputPath, outputPath, List.singleton_inj.1 hname]
  | nested =>
    obtain ⟨m, hm, hl⟩ := Workspace.follow_steps_join isName_mod (Workspace.locate_join isName_mod h)
    obtain ⟨m', hm', hl'⟩ := Workspace.follow_steps_join isName_mod (Workspace.locate_join isName_mod h')
    obtain ⟨k, -, hk⟩ := Workspace.follow_steps_join (isName_slug title) hm
    obtain ⟨k', -, hk'⟩ := Workspace.follow_steps_join (isName_slug title') hm'
    have hdirectory := (List.append_inj' (hl.symm.trans hl') (by simp only [List.length_singleton])).1
    have hname := (List.append_inj' (hk.symm.trans (hdirectory.trans hk')) (by simp only [List.length_singleton])).2
    rw [outputPath, outputPath, List.singleton_inj.1 hname]

/-! ## Loading -/

/-- Loading changes nothing, and the slug of what is loaded comes from a title. -/
theorem load_leaves (w : Workspace) (path : String) : (w.run (Description.load path)).2 = w ∧
    ∀ d, (w.run (Description.load path)).1 = .ok d → ∃ title, d.slug = slug title := by
  unfold Description.load
  cases hroot : Reader.standard.rootOf w path with
  | error e =>
    rw [(load_fails hroot).run_eq]
    exact ⟨rfl, fun _ h => by cases h⟩
  | ok root =>
    obtain ⟨result, hresult, hends⟩ := load_ends hroot
    obtain ⟨-, -, title, htitle⟩ := Reader.rootOf_eq_ok hroot
    rw [hends.run_eq]
    refine ⟨rfl, fun d hd => ⟨title, ?_⟩⟩
    cases hd
    exact (congrArg Description.slug hresult.same).trans htitle

/-! ## Writing -/

/-- Paths that never lead to one location. -/
def Apart (path other : String) : Prop := ∀ (w : Workspace) (l : Trail), w.locate path = .ok l → w.locate other ≠ .ok l

/-- What is read in a workspace is read in another one. -/
def Keeps (w w' : Workspace) : Prop := ∀ path text, w.read path = .ok text → w'.read path = .ok text

/-- What comes of a request to write a text. If it is granted, the text is read at its path and what was read apart from
it still is; otherwise everything that was read still is. -/
def Leaves (path text : String) (w : Workspace) (granted : Bool) (w' : Workspace) : Prop :=
  (granted = true → w'.read path = .ok text) ∧
    ∀ other text', (granted = true → Apart path other) → w.read other = .ok text' → w'.read other = .ok text'

section Write

variable {w w₁ w' : Workspace} {options : BatchOptions} {path text : String}

theorem Keeps.leaves (h : Keeps w w') : Leaves path text w false w' :=
  ⟨fun hf => (by cases hf), fun other text' _ hother => h other text' hother⟩

theorem Leaves.after {granted : Bool} (h : Leaves path text w₁ granted w') (hw : Keeps w w₁) :
    Leaves path text w granted w' :=
  ⟨h.1, fun other text' happart hother => h.2 other text' happart (hw other text' hother)⟩

theorem answer_makeDirectory_keeps (w : Workspace) (directory : String) :
    Keeps w (w.answer (w.makeDirectory directory)).2 := by
  intro path text h
  cases hmade : w.makeDirectory directory with
  | error e => exact h
  | ok w' => exact Workspace.makeDirectory_keeps hmade h

theorem answer_write_leaves (w : Workspace) (path text : String) :
    Leaves path text w (w.answer (w.write path text)).1.isOk (w.answer (w.write path text)).2 := by
  cases hwrite : w.write path text with
  | error e => exact Keeps.leaves fun _ _ h => h
  | ok w' =>
    refine ⟨fun _ => Workspace.write_read hwrite, fun other text' happart hother => ?_⟩
    obtain ⟨l, hl, -⟩ := Workspace.read_eq_ok_iff.1 hother
    exact Workspace.write_keeps hwrite hother fun e => happart rfl w l (e.trans hl) hl

/-- A task that writes a text and then only reports whether this was granted. -/
theorem store_leaves (hw : Keeps w w₁) {report : Except FileError Unit → Task (Except BatchError Unit)}
    (hok : report (.ok ()) = .done (.ok ())) (herror : ∀ e, ∃ e', report (.error e) = .done (.error e')) :
    Leaves path text w (w₁.run (Task.store path text >>= report)).1.isOk
      (w₁.run (Task.store path text >>= report)).2 := by
  have hrun : w₁.run (Task.store path text) = w₁.answer (w₁.write path text) := rfl
  have hwrite := (answer_write_leaves w₁ path text).after hw
  rw [Workspace.run_bind, hrun]
  cases hanswer : w₁.answer (w₁.write path text) with
  | mk r w₂ =>
    rw [hanswer] at hwrite
    cases r with
    | ok u => rw [hok]; exact hwrite
    | error e =>
      obtain ⟨e', he'⟩ := herror e
      rw [he']
      exact hwrite

theorem writeSource_leaves (hformat : options.format = false) (w : Workspace) (path source : String) :
    Leaves path source w (w.run (writeSource options path source)).1.isOk
      (w.run (writeSource options path source)).2 := by
  unfold writeSource
  rw [hformat]
  cases Files.Path.parent? path with
  | none => exact store_leaves (fun _ _ h => h) rfl fun e => ⟨_, rfl⟩
  | some parent =>
    have hrun : w.run (Task.directory parent) = w.answer (w.makeDirectory parent) := rfl
    have hmade := answer_makeDirectory_keeps w parent
    rw [Workspace.run_bind, hrun]
    cases hanswer : w.answer (w.makeDirectory parent) with
    | mk r w₁ =>
      rw [hanswer] at hmade
      cases r with
      | error e => exact hmade.leaves
      | ok u => exact store_leaves hmade rfl fun e => ⟨_, rfl⟩

theorem generateFile_leaves (hformat : options.format = false) (hdry : options.dryRun = false) (config : Config)
    (w : Workspace) (spec : String) :
    match (w.run (generateFile config options spec)).1 with
    | .error _ => Keeps w (w.run (generateFile config options spec)).2
    | .ok g => (∃ title, g.output = outputPath options.directory (slug title) options.scheme) ∧
        Leaves g.output g.source w true (w.run (generateFile config options spec)).2 := by
  obtain ⟨hw, hslug⟩ := load_leaves w spec
  rw [generateFile, Workspace.run_bind, hw]
  cases hload : (w.run (Description.load spec)).1 with
  | error e => exact fun _ _ h => h
  | ok d =>
    dsimp only
    cases hcompile : compile config d with
    | error e => exact fun _ _ h => h
    | ok c =>
      obtain ⟨title, htitle⟩ := hslug d hload
      have hwrite := writeSource_leaves hformat w (outputPath options.directory d.slug options.scheme) c.file.render
      simp only [hdry, Bool.false_eq_true, if_false, Workspace.run_bind]
      cases hresult : (w.run (writeSource options (outputPath options.directory d.slug options.scheme)
        c.file.render)).1 with
      | error e =>
        rw [hresult] at hwrite
        exact fun other text h => hwrite.2 other text (fun hf => by cases hf) h
      | ok u =>
        rw [hresult] at hwrite
        exact ⟨⟨title, congrArg (outputPath options.directory · options.scheme) htitle⟩, hwrite⟩

end Write

/-! ## Batches end -/

theorem exists_ends_writeSource (options : BatchOptions) (path source : String) (w : Workspace) :
    ∃ r, w.Ends (writeSource options path source) r := by
  unfold writeSource
  extract_lets store
  have hstore (made : Except BatchError Unit) (w : Workspace) : ∃ r, w.Ends (store made) r := by
    cases made with
    | error e => exact ⟨_, 0, rfl⟩
    | ok u =>
      refine Workspace.Ends.exists_bind ⟨_, 0, rfl⟩ fun stored w => ?_
      cases stored with
      | error e => exact ⟨_, 0, rfl⟩
      | ok u =>
        dsimp only
        split
        · refine Workspace.Ends.exists_bind ⟨_, 0, rfl⟩ fun formatted w => ?_
          cases formatted <;> exact ⟨_, 0, rfl⟩
        · exact ⟨_, 0, rfl⟩
  cases Files.Path.parent? path with
  | none => exact Workspace.Ends.exists_bind ⟨_, 0, rfl⟩ hstore
  | some parent =>
    refine Workspace.Ends.exists_bind ⟨_, 0, rfl⟩ fun made w => ?_
    cases made <;> exact Workspace.Ends.exists_bind ⟨_, 0, rfl⟩ hstore

theorem exists_ends_generateFile (config : Config) (options : BatchOptions) (spec : String) (w : Workspace) :
    ∃ r, w.Ends (generateFile config options spec) r := by
  refine Workspace.Ends.exists_bind (exists_ends_load Reader.standard w spec) fun loaded w => ?_
  cases loaded with
  | error e => exact ⟨_, 0, rfl⟩
  | ok d =>
    dsimp only
    cases compile config d with
    | error e => exact ⟨_, 0, rfl⟩
    | ok c =>
      dsimp only
      split
      · exact ⟨_, 0, rfl⟩
      · exact Workspace.Ends.exists_bind (exists_ends_writeSource options _ _ w) fun _ _ => ⟨_, 0, rfl⟩

/-- **A batch ends**, whatever stands in the workspace. So what `Workspace.run` gives for it is what it comes to. -/
theorem exists_ends_runBatch (config : Config) (options : BatchOptions) : ∀ (specs : List String) (report : BatchReport)
    (w : Workspace), ∃ r, w.Ends (runBatch config options specs report) r
  | [], report, w => ⟨_, 0, rfl⟩
  | spec :: specs, report, w => by
    refine Workspace.Ends.exists_bind ⟨_, 0, rfl⟩ fun cancelled w => ?_
    cases cancelled with
    | true => exact ⟨_, 0, rfl⟩
    | false =>
      exact Workspace.Ends.exists_bind (exists_ends_generateFile config options spec w) fun result w =>
        exists_ends_runBatch config options specs _ w

/-! ## Reports -/

namespace BatchReport

/-- What a report says that has been generated, in order. -/
def generated (r : BatchReport) : List Generated := r.files.filterMap (·.2.toOption)

/-- The source that a report gives last for a path. -/
def lastSource? (r : BatchReport) (path : String) : Option String :=
  (r.generated.reverse.find? (·.output == path)).map (·.source)

/-- A report with one more result. -/
def add (r : BatchReport) (spec : String) (result : Except BatchError Generated) : BatchReport :=
  { r with files := r.files ++ [(spec, result)] }

theorem generated_add (r : BatchReport) (spec : String) (result : Except BatchError Generated) :
    (r.add spec result).generated = r.generated ++ result.toOption.toList := by
  rw [generated, add, List.filterMap_append]
  cases result <;> rfl

theorem lastSource?_add_error (r : BatchReport) (spec : String) (e : BatchError) (path : String) :
    (r.add spec (.error e)).lastSource? path = r.lastSource? path := by
  rw [lastSource?, generated_add]
  simp [Except.toOption, lastSource?]

theorem lastSource?_add_ok (r : BatchReport) (spec : String) (g : Generated) (path : String) :
    (r.add spec (.ok g)).lastSource? path = if g.output = path then some g.source else r.lastSource? path := by
  rw [lastSource?, generated_add]
  by_cases h : g.output = path
  · simp [Except.toOption, h]
  · simp [Except.toOption, h, lastSource?]

theorem exists_of_lastSource? {r : BatchReport} {path text : String} (h : r.lastSource? path = some text) :
    ∃ g ∈ r.generated, g.output = path ∧ g.source = text := by
  obtain ⟨g, hg, htext⟩ := Option.map_eq_some_iff.1 h
  exact ⟨g, List.mem_reverse.1 (List.mem_of_find?_eq_some hg), by simpa using List.find?_some hg, htext⟩

theorem exists_lastSource? {r : BatchReport} {g : Generated} (hg : g ∈ r.generated) :
    ∃ text, r.lastSource? g.output = some text := by
  have hfound : (r.generated.reverse.find? (·.output == g.output)).isSome := by
    rw [List.find?_isSome]
    exact ⟨g, List.mem_reverse.2 hg, beq_self_eq_true _⟩
  obtain ⟨last, hlast⟩ := Option.isSome_iff_exists.1 hfound
  exact ⟨last.source, by rw [lastSource?, hlast, Option.map_some]⟩

/-- Where every path occurs once, its only source is the last one. -/
theorem lastSource?_of_nodup {r : BatchReport} (h : (r.generated.map (·.output)).Nodup) {g : Generated}
    (hg : g ∈ r.generated) : r.lastSource? g.output = some g.source := by
  obtain ⟨text, htext⟩ := exists_lastSource? hg
  obtain ⟨last, hlast, hpath, rfl⟩ := exists_of_lastSource? htext
  rw [htext, List.inj_on_of_nodup_map h hlast hg hpath]

theorem mem_generated {r : BatchReport} {g : Generated} : g ∈ r.generated ↔ ∃ f ∈ r.files, f.2 = .ok g := by
  simp only [generated, List.mem_filterMap]
  exact exists_congr fun f => and_congr_right fun _ => by cases f.2 <;> simp [Except.toOption]

/-- A batch succeeds if it is not stopped and every description gives a file. -/
theorem isSuccess_iff {r : BatchReport} :
    r.isSuccess = true ↔ r.cancelled = false ∧ ∀ f ∈ r.files, ∃ g, f.2 = .ok g := by
  have hfailed : r.failed = 0 ↔ ∀ f ∈ r.files, f.2.isOk = true := by
    rw [failed, succeeded, Nat.sub_eq_zero_iff_le, ← List.length_filter_eq_length_iff]
    exact ⟨fun h => Nat.le_antisymm (List.length_filter_le _ _) h, fun h => Nat.le_of_eq h.symm⟩
  have hok : ∀ x : Except BatchError Generated, x.isOk = true ↔ ∃ g, x = .ok g := fun x => by
    cases x <;> simp [Except.isOk, Except.toBool]
  simp only [isSuccess, Bool.and_eq_true, Bool.not_eq_true', beq_iff_eq, hfailed, hok]

end BatchReport

/-! ## Batches -/

section Batch

variable {w : Workspace} {options : BatchOptions} {report : BatchReport}

/-- A workspace that goes with a report: at every path that the report names stands the source that it gives last. -/
structure Standing (options : BatchOptions) (report : BatchReport) (w : Workspace) : Prop where
  path : ∀ g ∈ report.generated, ∃ title, g.output = outputPath options.directory (slug title) options.scheme
  read : ∀ path text, report.lastSource? path = some text → w.read path = .ok text

theorem apart_outputs {directory title title' : String} {scheme : OutputScheme}
    (h : outputPath directory (slug title) scheme ≠ outputPath directory (slug title') scheme) :
    Apart (outputPath directory (slug title) scheme) (outputPath directory (slug title') scheme) :=
  fun _ _ hl hl' => h (locate_outputPath_inj directory title title' scheme hl hl')

theorem Standing.start (options : BatchOptions) (w : Workspace) : Standing options {} w where
  path g hg := by cases hg
  read path text h := by cases h

/-- One more description of a batch. -/
theorem Standing.step (hformat : options.format = false) (hdry : options.dryRun = false) (config : Config)
    (h : Standing options report w) (spec : String) :
    Standing options (report.add spec (w.run (generateFile config options spec)).1)
      (w.run (generateFile config options spec)).2 := by
  have hleaves := generateFile_leaves hformat hdry config w spec
  cases hresult : (w.run (generateFile config options spec)).1 with
  | error e =>
    rw [hresult] at hleaves
    refine ⟨fun g hg => h.path g ?_, fun path text hlast => hleaves path text (h.read path text ?_)⟩
    · simpa [BatchReport.generated_add, Except.toOption] using hg
    · rwa [BatchReport.lastSource?_add_error] at hlast
  | ok g =>
    rw [hresult] at hleaves
    obtain ⟨⟨title, htitle⟩, hwritten, hkept⟩ := hleaves
    refine ⟨fun g' hg' => ?_, fun path text hlast => ?_⟩
    · rw [BatchReport.generated_add, List.mem_append] at hg'
      rcases hg' with hg' | hg'
      · exact h.path g' hg'
      · rw [List.mem_singleton.1 hg']
        exact ⟨title, htitle⟩
    · rw [BatchReport.lastSource?_add_ok] at hlast
      split at hlast
      · rename_i hpath
        rw [← hpath, ← Option.some.inj hlast]
        exact hwritten rfl
      · rename_i hpath
        obtain ⟨g', hg', hout, -⟩ := BatchReport.exists_of_lastSource? hlast
        obtain ⟨title', htitle'⟩ := h.path g' hg'
        refine hkept path text (fun _ => ?_) (h.read path text hlast)
        rw [← hout, htitle'] at hpath ⊢
        rw [htitle] at hpath ⊢
        exact apart_outputs hpath

/-- What goes with a report still does after more descriptions. -/
theorem Standing.run (hformat : options.format = false) (hdry : options.dryRun = false) (config : Config) :
    ∀ (specs : List String) {report : BatchReport} {w : Workspace}, Standing options report w →
      Standing options (w.run (runBatch config options specs report)).1 (w.run (runBatch config options specs report)).2
  | [], _, _, h => h
  | spec :: specs, report, w, h => by
    have hrun : w.run Task.isCancelled = (w.cancelled, w) := rfl
    rw [runBatch, Workspace.run_bind, hrun]
    cases w.cancelled with
    | true => exact ⟨h.path, h.read⟩
    | false =>
      simp only [Bool.false_eq_true, if_false, Workspace.run_bind]
      exact Standing.run hformat hdry config specs (h.step hformat hdry config spec)

/-- A batch that is not stopped takes its descriptions in order. -/
theorem runBatch_specs (config : Config) (options : BatchOptions) :
    ∀ (specs : List String) (report : BatchReport) (w : Workspace),
    (w.run (runBatch config options specs report)).1.cancelled = false →
      (w.run (runBatch config options specs report)).1.files.map (·.1) = report.files.map (·.1) ++ specs
  | [], report, w, _ => (List.append_nil _).symm
  | spec :: specs, report, w, h => by
    have hrun : w.run Task.isCancelled = (w.cancelled, w) := rfl
    rw [runBatch, Workspace.run_bind, hrun] at h ⊢
    cases hc : w.cancelled with
    | true => rw [hc] at h; cases h
    | false =>
      rw [hc] at h
      simp only [Bool.false_eq_true, if_false, Workspace.run_bind] at h ⊢
      rw [runBatch_specs config options specs _ _ h, List.map_append, List.append_assoc]
      rfl

/-- **What a batch leaves on disk.** If it succeeds, every description has given a file, in order, and at the path of
each file stands the last source for this path. So a file holds its own source exactly if no later description has put
another one in its place, and every file does if no path occurs twice. -/
theorem runBatch_leaves (config : Config) (options : BatchOptions) (hformat : options.format = false)
    (hdry : options.dryRun = false) (specs : List String) (w : Workspace) (report : BatchReport) (after : Workspace)
    (hrun : w.run (runBatch config options specs {}) = (report, after)) (hsuccess : report.isSuccess = true) :
    report.files.map (·.1) = specs ∧
    (∀ f ∈ report.files, ∃ g, f.2 = .ok g ∧
      (∃ last, report.lastSource? g.output = some last ∧ after.read g.output = .ok last) ∧
      (after.read g.output = .ok g.source ↔ report.lastSource? g.output = some g.source)) ∧
    ((report.generated.map (·.output)).Nodup → ∀ g ∈ report.generated, after.read g.output = .ok g.source) := by
  obtain ⟨hcancelled, hall⟩ := BatchReport.isSuccess_iff.1 hsuccess
  have hspecs := runBatch_specs config options specs {} w
  have hstanding := (Standing.start options w).run hformat hdry config specs
  rw [hrun] at hspecs hstanding
  refine ⟨hspecs hcancelled, fun f hf => ?_, fun hnodup g hg => ?_⟩
  · obtain ⟨g, hg⟩ := hall f hf
    obtain ⟨last, hlast⟩ := BatchReport.exists_lastSource? (BatchReport.mem_generated.2 ⟨f, hf, hg⟩)
    have hread := hstanding.read g.output last hlast
    refine ⟨g, hg, ⟨last, hlast, hread⟩, ?_⟩
    rw [hread, hlast, Except.ok.injEq, Option.some.injEq]
  · exact hstanding.read g.output g.source (BatchReport.lastSource?_of_nodup hnodup hg)

end Batch

/-! ## Batches that keep their sources, and one that does not -/

/-- A description without operations, by its title and base path. -/
def titled (title basePath : String) : String :=
  Json.text (.obj [("openapi", .str "3.1.0"), ("info", .obj [("title", .str title), ("version", .str "1")]),
    ("servers", .arr [.obj [("url", .str basePath)]]), ("paths", .obj [])])

/-- Descriptions with different slugs, in the working directory. -/
def petsAndTrees : Workspace where
  current := ["home"]
  files := [(["home", "pets.json"], titled "Pets" "/pets"), (["home", "trees.json"], titled "Trees" "/trees")]

/-- Descriptions with different titles and one slug. -/
def petsTwice : Workspace where
  files := [(["pets.json"], titled "Pets" "/pets"), (["more.json"], titled "pets!" "/more")]

/-- Sources are written below one directory. -/
def intoOut : BatchOptions where
  directory := "out"
  scheme := .flat
  dryRun := false

/-- Sources are written below a directory that is given from the root. -/
def intoServer : BatchOptions := { intoOut with directory := "/srv/out" }

theorem petsAndTrees_outputs :
    (petsAndTrees.runWithin 1 (runBatch {} intoServer ["pets.json", "trees.json"] {})).map (fun r =>
      (r.1.isSuccess, r.1.generated.map (·.output))) = some (true, ["/srv/out/pets.rs", "/srv/out/trees.rs"]) := by
  decide +kernel

theorem runBatch_leaves_petsAndTrees : ∃ report after,
    petsAndTrees.run (runBatch {} intoServer ["pets.json", "trees.json"] {}) = (report, after) ∧
    intoServer.format = false ∧ intoServer.dryRun = false ∧ report.isSuccess = true ∧
    report.generated.map (·.output) = ["/srv/out/pets.rs", "/srv/out/trees.rs"] ∧
    ∀ g ∈ report.generated, after.read g.output = .ok g.source := by
  obtain ⟨⟨report, after⟩, hwithin, houtputs⟩ := Option.map_eq_some_iff.1 petsAndTrees_outputs
  obtain ⟨hsuccess, houtputs⟩ := Prod.mk.inj houtputs
  have hrun := Workspace.run_eq_of_runWithin hwithin
  have hleaves := runBatch_leaves {} intoServer rfl rfl _ _ report after hrun hsuccess
  exact ⟨report, after, hrun, rfl, rfl, hsuccess, houtputs, hleaves.2.2 (by rw [houtputs]; decide)⟩

theorem petsTwice_outputs :
    (petsTwice.runWithin 1 (runBatch {} intoOut ["pets.json", "more.json"] {})).map (fun r =>
      (r.1.isSuccess, r.1.generated.map (·.output), decide (r.1.generated.map (·.source)).Nodup)) =
      some (true, ["out/pets.rs", "out/pets.rs"], true) := by
  decide +kernel

/-- The source of the first description is lost, and the batch succeeds. -/
theorem runBatch_overwrites : ∃ report after,
    petsTwice.run (runBatch {} intoOut ["pets.json", "more.json"] {}) = (report, after) ∧
    intoOut.format = false ∧ intoOut.dryRun = false ∧ report.isSuccess = true ∧
    ∃ f ∈ report.files, ∃ g, f.2 = .ok g ∧ after.read g.output ≠ .ok g.source := by
  obtain ⟨⟨report, after⟩, hwithin, houtputs⟩ := Option.map_eq_some_iff.1 petsTwice_outputs
  obtain ⟨hsuccess, houtputs⟩ := Prod.mk.inj houtputs
  obtain ⟨houtputs, hsources⟩ := Prod.mk.inj houtputs
  have hrun := Workspace.run_eq_of_runWithin hwithin
  have hstanding := (Standing.start intoOut petsTwice).run rfl rfl {} ["pets.json", "more.json"]
  rw [hrun] at hstanding
  obtain ⟨first, rest, hgenerated, hfirst, hrest⟩ := List.map_eq_cons_iff.1 houtputs
  obtain ⟨second, rfl, hsecond⟩ := List.map_eq_singleton_iff.1 hrest
  obtain ⟨f, hf, hok⟩ := BatchReport.mem_generated.1 (hgenerated ▸ List.mem_cons_self : first ∈ report.generated)
  have hlast : report.lastSource? first.output = some second.source := by
    rw [BatchReport.lastSource?, hgenerated]
    simp [hfirst, hsecond]
  refine ⟨report, after, hrun, rfl, rfl, hsuccess, f, hf, first, hok, fun hread => ?_⟩
  have hsame := Except.ok.inj (hread.symm.trans (hstanding.read _ _ hlast))
  rw [decide_eq_true_eq, hgenerated] at hsources
  simp [hsame] at hsources

end ApiForge.Cli

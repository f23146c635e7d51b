import ApiForge.Proofs.Cli.Outputs
import ApiForge.Proofs.Naming.Idempotent

/-!
# Names of outputs

The file of a description is named by the slug of its title. Whatever the title is, the slug has no slashes and no
points, so the file lies below the output directory.

* `steps_outputPath`: the steps of an output path are those of the directory and then one or two names.
* `names_normal`: names are normal, and outputs lie below the output directory.
-/

namespace ApiForge.Cli

open Files.Path Naming

/-- The names that lead from the output directory to an output. -/
def outputNames (title : String) : OutputScheme → List String
  | .flat => [slug title ++ ".rs"]
  | .nested => [slug title, "mod.rs"]

theorem isName_of_mem_outputNames {title : String} {scheme : OutputScheme} :
    ∀ name ∈ outputNames title scheme, IsName name := by
  intro name hname
  cases scheme with
  | flat =>
    rw [List.mem_singleton.1 hname]
    exact isName_slug_rs title
  | nested =>
    rcases List.mem_cons.1 hname with rfl | hname
    · exact isName_slug title
    · rw [List.mem_singleton.1 hname]
      exact isName_mod

/-- An output path is a name behind a path. -/
theorem outputPath_eq_join (directory title : String) (scheme : OutputScheme) :
    ∃ parent name, IsName name ∧ outputPath directory (slug title) scheme = join parent name := by
  cases scheme with
  | flat => exact ⟨directory, _, isName_slug_rs title, rfl⟩
  | nested => exact ⟨join directory (slug title), _, isName_mod, rfl⟩

/-- **Outputs have the steps of their directory** and then their names. -/
theorem steps_outputPath (directory title : String) (scheme : OutputScheme) :
    steps (outputPath directory (slug title) scheme) = steps directory ++ outputNames title scheme := by
  cases scheme with
  | flat => exact steps_join directory (isName_slug_rs title)
  | nested =>
    calc steps (join (join directory (slug title)) "mod.rs")
        = steps (join directory (slug title)) ++ ["mod.rs"] := steps_join _ isName_mod
      _ = steps directory ++ [slug title] ++ ["mod.rs"] := by rw [steps_join directory (isName_slug title)]
      _ = steps directory ++ [slug title, "mod.rs"] := by rw [List.append_assoc, List.singleton_append]

theorem isAbsolute_outputPath (directory title : String) (scheme : OutputScheme) :
    isAbsolute (outputPath directory (slug title) scheme) = isAbsolute directory := by
  cases scheme with
  | flat => exact isAbsolute_join directory (isName_slug_rs title)
  | nested => exact (isAbsolute_join _ isName_mod).trans (isAbsolute_join directory (isName_slug title))

/-- An output is located by its names from where the steps of the directory lead. -/
theorem locate_outputPath {w : Workspace} {l : Trail} {directory title : String} {scheme : OutputScheme}
    (h : w.locate (outputPath directory (slug title) scheme) = .ok l) :
    ∃ m, w.follow (w.start directory) (steps directory) = .ok m ∧ l = m ++ outputNames title scheme := by
  have hsteps := steps_outputPath directory title scheme
  have hstart := Workspace.start_congr (isAbsolute_outputPath directory title scheme) w
  obtain ⟨parent, name, hname, hpath⟩ := outputPath_eq_join directory title scheme
  rw [hpath] at h hsteps hstart
  have hfollow := Workspace.locate_join hname h
  rw [hsteps, hstart, Workspace.follow_append] at hfollow
  cases hm : w.follow (w.start directory) (steps directory) with
  | error e =>
    rw [hm] at hfollow
    cases hfollow
  | ok m =>
    rw [hm] at hfollow
    exact ⟨m, rfl, Workspace.follow_names isName_of_mem_outputNames hfollow⟩

/-- **Names are normal, and outputs lie below the output directory.** Snake case, Pascal case and slugs are left as they
are when they are made again. A slug consists of one or more runs of small letters and digits joined by single
underscores. The output path of a title begins where the directory does, its steps are those of the directory and then
at least one name, none of which is empty, leads up or has a slash, and in every workspace its location lies below the
one that the directory leads to. -/
theorem names_normal (name directory : String) (scheme : OutputScheme) :
    snakeCase (snakeCase name) = snakeCase name ∧
    pascalCase (pascalCase name) = pascalCase name ∧
    slug (slug name) = slug name ∧
    IsSlug (slug name) ∧
    isAbsolute (outputPath directory (slug name) scheme) = isAbsolute directory ∧
    ∃ names, names ≠ [] ∧ (∀ part ∈ names, IsName part) ∧
      steps (outputPath directory (slug name) scheme) = steps directory ++ names ∧
      ∀ (w : Workspace) (l : Trail), w.locate (outputPath directory (slug name) scheme) = .ok l →
        ∃ m, w.follow (w.start directory) (steps directory) = .ok m ∧ l = m ++ names := by
  have hne : outputNames name scheme ≠ [] := by cases scheme <;> simp [outputNames]
  refine ⟨snakeCase_snakeCase name, pascalCase_pascalCase name, (isSlug_slug name).slug_eq, isSlug_slug name,
    isAbsolute_outputPath directory name scheme, outputNames name scheme, hne, isName_of_mem_outputNames,
    steps_outputPath directory name scheme, fun w l h => ?_⟩
  exact locate_outputPath h

/-- A title that looks like a path leads to a file in the output directory, here one that is given from the root. -/
theorem names_normal_pathlike :
    let w : Workspace := { current := ["home"], directories := [["gen"]] }
    outputPath "/gen/" (slug "../../etc/passwd") .flat = "/gen/etc_passwd.rs" ∧
    w.locate (outputPath "/gen/" (slug "../../etc/passwd") .flat) = .ok ["gen", "etc_passwd.rs"] ∧
    ∃ m names, w.follow [] ["gen"] = .ok m ∧ names ≠ [] ∧ ["gen", "etc_passwd.rs"] = m ++ names := by
  intro w
  have hpath : outputPath "/gen/" (slug "../../etc/passwd") .flat = "/gen/etc_passwd.rs" := by decide
  have hlocated : w.locate (outputPath "/gen/" (slug "../../etc/passwd") .flat) = .ok ["gen", "etc_passwd.rs"] := by
    rw [hpath]
    rfl
  have hstart : w.start "/gen/" = [] := rfl
  have hgen : steps "/gen/" = ["gen"] := by decide
  obtain ⟨-, -, -, -, -, names, hne, -, -, hbelow⟩ := names_normal "../../etc/passwd" "/gen/" .flat
  obtain ⟨m, hm, heq⟩ := hbelow w _ hlocated
  rw [hstart, hgen] at hm
  exact ⟨hpath, hlocated, m, names, hm, hne, heq⟩

end ApiForge.Cli

import ApiForge.Description.Basic
import ApiForge.Description.Structure
import ApiForge.Files.Path
import ApiForge.Files.Task
import ApiForge.Json.Parser
import ApiForge.Naming.Identifier
import ApiForge.Url.Basic
import ApiForge.Yaml.Document

/-!
# Loading descriptions

A document is read as YAML or JSON by the extension of its path. Path items keep only what they may hold, then the
structure is checked. Documents that references name are loaded too, the least name first, until none is missing.

* `Reader`: how texts are read as documents, and which documents are descriptions. `Reader.standard` is the one of the
  program.
* `Reader.ofDocument` makes a description of a document, `Reader.parse` of a text.
* `Reader.load` reads a description and all documents that it refers to.
* `Description.ofDocument`, `Description.parse` and `Description.load` are those of the standard reader.
-/

namespace ApiForge

open Text

/-- Why a description cannot be loaded. -/
inductive LoadError where
  | unreadable (path : String) (cause : FileError)
  | unreadableExternal (name path : String) (cause : FileError)
  | badYaml (path : String)
  | badJson (path : String)
  | invalid (path : String)
  deriving Inhabited

namespace LoadError

/-- The words for a failure. -/
def message : LoadError → String
  | unreadable path _ => s!"Failed to read description: {path}"
  | unreadableExternal name path _ => s!"Failed to read external document '{name}' referenced from {path}"
  | badYaml path => s!"Failed to parse YAML: {path}"
  | badJson path => s!"Failed to parse JSON: {path}"
  | invalid path => s!"{path} is not a valid OpenAPI document"

/-- What lies behind a failure. -/
def cause? : LoadError → Option FileError
  | unreadable _ cause | unreadableExternal _ _ cause => some cause
  | _ => none

/-- The words for a failure with what lies behind it. -/
def report (e : LoadError) : String :=
  match e.cause? with
  | some cause => s!"{e.message}: {cause.message}"
  | none => e.message

end LoadError

/-- What a description says about itself. -/
structure Heading where
  title : String
  /-- The address of the first server. -/
  server? : Option String

/-- How texts are read as documents, and what documents are descriptions. -/
structure Reader where
  yaml? : String → Option Json
  json? : String → Option Json
  /-- The heading of a document that is a description. -/
  heading? : Json → Option Heading

/-- The reader of the program. -/
def Reader.standard : Reader where
  yaml? := Yaml.parse?
  json? := Json.parse?
  heading? document :=
    if isDescription document then
      let server := ((document.get? "servers").bind Json.items?).bind List.head?
      some ⟨((document.get? "info").bind (·.textAt? "title")).getD "", server.bind (·.textAt? "url")⟩
    else none

/-- Reads a document by the extension of its path. -/
def Reader.document (reader : Reader) (path text : String) : Except LoadError Json :=
  if Files.Path.extension? path == some "yaml" || Files.Path.extension? path == some "yml" then
    match reader.yaml? text with
    | some v => .ok v
    | none => .error (.badYaml path)
  else match reader.json? text with
    | some v => .ok v
    | none => .error (.badJson path)

/-- Whether a path item may have a member, whatever the case of its name; names of extensions are in lower case. -/
def isPathItemKey (key : String) : Bool :=
  ["summary", "description", "servers", "parameters", "$ref", "get", "post", "put", "delete", "patch", "options",
    "head", "trace"].contains (lowerAscii key) || startsWith "x-" key

/-- A path item without members that it may not have. -/
def tidyPathItem : Json → Json
  | .obj ms => .obj (ms.filter fun m => isPathItemKey m.1)
  | v => v

/-- A document whose path items are tidy. -/
def tidyPaths : Json → Json
  | .obj ms => .obj (ms.map fun m =>
      match m with
      | ("paths", .obj items) => ("paths", .obj (items.map fun i => (i.1, tidyPathItem i.2)))
      | m => m)
  | v => v

mutual

/-- The names of the documents that a value refers to. -/
def referredDocuments : Json → List String
  | .obj ms => ownReference ms ++ referredByMembers ms
  | .arr xs => referredByItems xs
  | _ => []
where
  /-- The document named by the reference of an object itself. -/
  ownReference (ms : Json.Members) : List String :=
    match (Json.Members.get? ms "$ref").bind Json.text? with
    | some r => ((split '#' r).head?.filter (· != "")).toList
    | none => []

/-- The names of the documents that members refer to. -/
def referredByMembers : Json.Members → List String
  | [] => []
  | (_, v) :: ms => referredDocuments v ++ referredByMembers ms

/-- The names of the documents that items refer to. -/
def referredByItems : List Json → List String
  | [] => []
  | v :: vs => referredDocuments v ++ referredByItems vs

end

/-- Inserts a name at its place in ascending order, unless it is there. -/
def insertName (name : String) : List String → List String
  | [] => [name]
  | n :: ns => if name == n then n :: ns else if name < n then name :: n :: ns else n :: insertName name ns

namespace Reader

variable (reader : Reader)

/-- The description of a document, without the documents that it refers to. -/
def ofDocument (source : String) (document : Json) : Except LoadError Description :=
  let tidy := tidyPaths document
  match reader.heading? tidy with
  | some heading =>
    .ok {
      source := source
      title := heading.title
      slug := Naming.slug heading.title
      basePath := (heading.server?.map Url.basePath).getD ""
      document := tidy
      external := [] }
  | none => .error (.invalid source)

/-- The description of a text. -/
def parse (source text : String) : Except LoadError Description := do
  let document ← reader.document source text
  reader.ofDocument source document

/-- Adds names to those that are pending. -/
def addNames (names pending : List String) : List String := names.foldl (fun ns n => insertName n ns) pending

/-- Loads the document of the least name that is pending, unless it is there already. -/
def loadNext (base : String) : List String × Description →
    Task ((List String × Description) ⊕ Except LoadError Description)
  | ([], d) => return .inr (.ok d)
  | (name :: pending, d) =>
    if d.external.any (·.1 == name) then return .inl (pending, d)
    else do
      let file := Files.Path.join base name
      match ← Task.textOf file with
      | .error e => return .inr (.error (.unreadableExternal name d.source e))
      | .ok text =>
        match reader.document file text with
        | .error e => return .inr (.error e)
        | .ok document => return .inl (addNames (referredDocuments document) pending, d.withExternal name document)

/-- Loads a description with all documents that it refers to. -/
def load (path : String) : Task (Except LoadError Description) := do
  match ← Task.textOf path with
  | .error e => return .error (.unreadable path e)
  | .ok text =>
    match reader.parse path text with
    | .error e => return .error e
    | .ok d =>
      let base := (Files.Path.parent? path).getD ""
      Task.repeated (reader.loadNext base) (addNames (referredDocuments d.document) [], d)

end Reader

namespace Description

/-- The description of a document, without the documents that it refers to. -/
def ofDocument (source : String) (document : Json) : Except LoadError Description :=
  Reader.standard.ofDocument source document

/-- The description of a text. -/
def parse (source text : String) : Except LoadError Description := Reader.standard.parse source text

/-- Loads a description with all documents that it refers to. -/
def load (path : String) : Task (Except LoadError Description) := Reader.standard.load path

end Description

end ApiForge

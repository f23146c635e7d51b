import ApiForge.Json.Basic

/-!
# Descriptions

A description is the root document of an API with the documents it refers to.
-/

namespace ApiForge

/-- An API description and the facts drawn from it when it was loaded. -/
structure Description where
  source : String
  title : String
  slug : String
  basePath : String
  document : Json
  /-- Further documents by their relative paths, in ascending order. -/
  external : List (String × Json)

namespace Description

/-- The schemas of a document. -/
def schemasOf (document : Json) : Option Json := (document.get? "components").bind (·.get? "schemas")

/-- The named schemas of the root document. -/
def schemas? (d : Description) : Option Json.Members := (schemasOf d.document).bind Json.members?

/-- The paths of the root document. -/
def paths? (d : Description) : Option Json.Members := (d.document.get? "paths").bind Json.members?

/-- The document of a relative path, or the root document. -/
def documentFor? (d : Description) : Option String → Option Json
  | none => some d.document
  | some path => (d.external.find? (·.1 == path)).map (·.2)

/-- Inserts a document at its place in the order of paths. -/
def insertSorted (path : String) (document : Json) : List (String × Json) → List (String × Json)
  | [] => [(path, document)]
  | (p, d) :: rest =>
    if path == p then (p, document) :: rest
    else if path < p then (path, document) :: (p, d) :: rest
    else (p, d) :: insertSorted path document rest

/-- Adds a document. -/
def withExternal (d : Description) (path : String) (document : Json) : Description :=
  { d with external := insertSorted path document d.external }

end Description

end ApiForge

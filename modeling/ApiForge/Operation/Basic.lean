import ApiForge.Route.Template
import ApiForge.Schema.Node

/-!
# Operations

An operation is first collected as it is declared, with raw schemas (`RawOperation`), and then resolved (`Operation`).
-/

namespace ApiForge

/-- Where a parameter travels. -/
inductive Location where
  | path
  | query
  | header
  | cookie
  deriving DecidableEq

namespace Location

/-- The word for a location. -/
def name : Location → String
  | path => "path"
  | query => "query"
  | header => "header"
  | cookie => "cookie"

/-- The location with a given name. -/
def ofName? : String → Option Location
  | "path" => some path
  | "query" => some query
  | "header" => some header
  | "cookie" => some cookie
  | _ => none

/-- All locations, in the order of the wire. -/
def all : List Location := [path, query, header, cookie]

/-- What the type name of a parameter record ends in. -/
def typeEnding : Location → String
  | path => "Path"
  | query => "Query"
  | header => "Headers"
  | cookie => "Cookies"

/-- The field of a request that holds the parameter record. -/
def fieldName : Location → String
  | path => "path"
  | query => "query"
  | header => "headers"
  | cookie => "cookies"

end Location

/-! ## As declared -/

/-- A parameter. -/
structure RawParameter where
  name : String
  location : Location
  required : Bool
  schema : Option Json
  description : Option String

/-- A request body. -/
structure RawBody where
  contentType : String
  required : Bool
  schema : Option Json

/-- A response header. -/
structure RawHeader where
  name : String
  required : Bool
  schema : Option Json
  description : Option String

/-- A response under one status. -/
structure RawResponse where
  status : Nat
  description : Option String
  contentType : Option String
  schema : Option Json
  headers : List RawHeader

/-- An operation with raw schemas. -/
structure RawOperation where
  operationId : String
  method : String
  route : Route.Template
  summary : Option String
  parameters : List RawParameter
  requestBody : Option RawBody
  /-- In ascending order of status. -/
  responses : List RawResponse

/-- The parameters in one location, in order of declaration. -/
def RawOperation.parametersIn (op : RawOperation) (location : Location) : List RawParameter :=
  op.parameters.filter (·.location == location)

/-! ## Resolved -/

/-- A resolved request body. -/
structure RequestBody where
  node : Schema.Node
  required : Bool
  contentType : String
  rules : List Rule

/-- The records of the parameters in each location, and the body. -/
structure RequestParts where
  path : Option Schema.Node := none
  query : Option Schema.Node := none
  headers : Option Schema.Node := none
  cookies : Option Schema.Node := none
  body : Option RequestBody := none

/-- The record of a location. -/
def RequestParts.part? (r : RequestParts) : Location → Option Schema.Node
  | .path => r.path
  | .query => r.query
  | .header => r.headers
  | .cookie => r.cookies

/-- The records in the order of the wire. -/
def RequestParts.parameterParts (r : RequestParts) : List (Location × Schema.Node) :=
  Location.all.filterMap fun l => (r.part? l).map (l, ·)

/-- A declared status of an operation. -/
structure ResponseVariant where
  status : Nat
  description : Option String
  contentType : Option String
  body : Option Schema.Node
  headers : Option Schema.Node

/-- A resolved operation. -/
structure Operation where
  operationId : String
  method : String
  route : Route.Template
  summary : Option String
  request : RequestParts
  /-- In ascending order of status. -/
  responses : List ResponseVariant

namespace Operation

/-- The response under a status. -/
def response? (op : Operation) (status : Nat) : Option ResponseVariant := op.responses.find? (·.status == status)

/-- The declared statuses, in ascending order. -/
def statuses (op : Operation) : List Nat := op.responses.map (·.status)

end Operation

end ApiForge

import ApiForge.Http.Envelope
import ApiForge.Rule.Evaluate
import ApiForge.Text.Ascii

/-!
# Responses

A response carries what fills the slot of an envelope, or a problem: a small object that says what went wrong.
-/

namespace ApiForge.Http

open Text

/-- A response. -/
structure Response where
  status : Nat
  headers : Headers
  body : Option Json

/-- The failures that are answered with a problem. -/
inductive Problem where
  | badRequest
  | notFound
  | internalError
  | notImplemented
  deriving DecidableEq

/-- The status of a problem. -/
def Problem.status : Problem → Nat
  | badRequest => 400
  | notFound => 404
  | internalError => 500
  | notImplemented => 501

/-- The title of a problem. -/
def Problem.title : Problem → String
  | badRequest => "Bad Request"
  | notFound => "Not Found"
  | internalError => "Internal Server Error"
  | notImplemented => "Not Implemented"

/-- A broken rule as an object. -/
def violationObject (v : Violation) : Json :=
  .obj [("path", .str v.path), ("rule", .str v.rule.name), ("message", .str v.message)]

namespace Response

/-- A response with a payload. A body without a content type gets the declared one. -/
def ofPayload (status : Nat) (payload : Payload) (contentType : Option String) : Response :=
  let isTyped := payload.headers.any fun h => sameIgnoringCase h.1 "content-type"
  let headers := if payload.body.isSome && !isTyped then
      Headers.insert "content-type" (contentType.getD "application/json") payload.headers
    else payload.headers
  ⟨status, headers, payload.body⟩

/-- A response that reports a problem, with further members. -/
def ofProblem (p : Problem) (detail : String) (more : Json.Members) : Response :=
  ⟨p.status, [("content-type", "application/problem+json")],
    some (.obj ([("type", .str "about:blank"), ("title", .str p.title), ("status", .ofNat p.status),
      ("detail", .str detail)] ++ more))⟩

/-- A response that reports a problem. -/
def problem (p : Problem) (detail : String) : Response := ofProblem p detail []

/-- A response that lists the rules that a request breaks. -/
def invalid (violations : List Violation) : Response :=
  ofProblem .badRequest s!"{violations.length} validation rule(s) failed"
    [("errors", .arr (violations.map violationObject))]

/-- The value of the first header with a name, without regard to case. -/
def header? (r : Response) (name : String) : Option String :=
  (r.headers.find? fun h => sameIgnoringCase h.1 name).map (·.2)

/-- The paths of the errors that the body lists. -/
def errorPaths (r : Response) : List String :=
  (((r.body.bind (·.get? "errors")).bind Json.items?).getD []).filterMap (·.textAt? "path")

end Response

end ApiForge.Http

import ApiForge.Http.Cookie
import ApiForge.Http.Form
import ApiForge.Json.Basic
import ApiForge.Text.Ascii

/-!
# Requests

A request with its target taken apart. Names of headers keep their case and are looked up without regard to it.
-/

namespace ApiForge.Http

open Text

/-- A request. -/
structure Request where
  method : String
  /-- The path without the query. -/
  path : String
  query : List (String × String) := []
  headers : List (String × String) := []
  cookies : List (String × String) := []
  body : Option Json := none

namespace Request

/-- A request for a target, which is a path and perhaps a query behind a question mark. -/
def ofTarget (method target : String) : Request :=
  match splitOnce? '?' target with
  | some (path, query) => { method, path, query := parseQuery query }
  | none => { method, path := target }

/-- Adds a header; the header for cookies adds these too. -/
def withHeader (r : Request) (name value : String) : Request :=
  let cookies := if sameIgnoringCase name "cookie" then parseCookies value else []
  { r with headers := r.headers ++ [(name, value)], cookies := r.cookies ++ cookies }

/-- Adds a cookie. -/
def withCookie (r : Request) (name value : String) : Request := { r with cookies := r.cookies ++ [(name, value)] }

/-- Adds a value of the query. -/
def withQuery (r : Request) (name value : String) : Request := { r with query := r.query ++ [(name, value)] }

/-- Sets the body. -/
def withBody (r : Request) (body : Json) : Request := { r with body := some body }

/-- The value of the first header with a name, without regard to case. -/
def header? (r : Request) (name : String) : Option String :=
  (r.headers.find? fun h => sameIgnoringCase h.1 name).map (·.2)

end Request

end ApiForge.Http

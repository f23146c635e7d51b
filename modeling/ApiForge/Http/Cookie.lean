import ApiForge.Text.Basic
import ApiForge.Text.Blank

/-!
# Cookies

The value of a cookie header is a list of names and values, divided by semicolons.
-/

namespace ApiForge.Http

open Text

/-- The name and the value of one piece; a piece without a name is none. -/
def parseCookie? (piece : String) : Option (String × String) := do
  let (name, value) ← splitOnce? '=' (trim piece)
  let name := trim name
  if name.isEmpty then none
  return (name, trim value)

/-- The names and values of the cookies in a header, in order. -/
def parseCookies (header : String) : List (String × String) := (split ';' header).filterMap parseCookie?

end ApiForge.Http

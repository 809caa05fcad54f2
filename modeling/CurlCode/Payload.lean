import CurlCode.Form
import CurlCode.Json.Reader
import CurlCode.Request

/-!
A request body as programs write it: a body that calls itself JSON or a form is taken
apart if it is one, and any other body is a plain string.
-/
namespace CurlCode

inductive Payload where
  | json (v : Json)
  | form (fields : List Field)
  | raw (text : String)
  deriving Repr

namespace Payload

def ofBody (format : BodyFormat) (body : String) : Payload :=
  match format with
  | .json =>
    match Json.parse? body with
    | some v => .json v
    | none => .raw body
  | .form =>
    match Form.decode? body with
    | some fields => .form fields
    | none => .raw body
  | .multipart | .raw => .raw body

end Payload

/-- The body as its `Content-Type` describes it. -/
def Request.payload? (r : Request) : Option Payload :=
  r.body.map (Payload.ofBody r.facets.bodyFormat)

end CurlCode

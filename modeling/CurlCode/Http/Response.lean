import CurlCode.Header
import CurlCode.Json.Printer
import CurlCode.Json.Reader

/-!
A response for display. A body that is JSON is spread over lines; without a media type
that says so, only an object or an array counts, so that a bare `42` stays as it is.
-/
namespace CurlCode.Http

inductive ResponseBody where
  | json (content : String)
  | text (content : String)
  deriving DecidableEq, Repr

namespace ResponseBody

def content : ResponseBody → String
  | .json s | .text s => s

/-- The body to show for a text; `hint` says that the media type is a JSON one. -/
def ofText (hint : Bool) (s : String) : ResponseBody :=
  match Json.parse? s with
  | some v => if hint || v.isContainer then .json v.pretty else .text s
  | none => .text s

end ResponseBody

structure Response where
  status : Nat
  headers : Headers
  body : ResponseBody
  deriving DecidableEq, Repr

end CurlCode.Http

import CurlCode.Json.Numeral

/-!
JSON values. Numbers keep their text and objects the order of their members.
-/
namespace CurlCode

inductive Json where
  | null
  | bool (b : Bool)
  | number (n : Json.Numeral)
  | string (s : String)
  | array (items : List Json)
  | object (members : List (String × Json))
  deriving Repr

namespace Json

abbrev Member := String × Json

/-- Set the member of a key: in place if the key is there, otherwise at the end. -/
def putMember (key : String) (v : Json) : List Member → List Member
  | [] => [(key, v)]
  | m :: ms => if m.1 = key then (key, v) :: ms else m :: putMember key v ms

def isObject : Json → Bool
  | .object _ => true
  | _ => false

def isArray : Json → Bool
  | .array _ => true
  | _ => false

/-- An object or an array. -/
def isContainer (v : Json) : Bool := v.isObject || v.isArray

end Json

end CurlCode

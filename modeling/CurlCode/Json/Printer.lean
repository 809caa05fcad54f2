import CurlCode.Json.Dialect

/-!
JSON text of a value: on one line without blanks, or spread over lines with two spaces
a step.
-/
namespace CurlCode.Json

/-- JSON as a dialect of itself. -/
def standard : Dialect where
  objectOpen := "\x7b"
  objectClose := "\x7d"
  emptyObject := "\x7b\x7d"
  arrayOpen := "["
  arrayClose := "]"
  emptyArray := "[]"
  keySeparator := ": "
  null := "null"
  yes := "true"
  no := "false"
  trailingComma := false
  indent := "  "

def pretty (v : Json) : String := (source standard 0 v).render .json

mutual

def compactSource : Json → Source
  | .null => ["null"]
  | .bool b => [if b then "true" else "false"]
  | .number n => [String.ofList n.text]
  | .string s => [.literal s]
  | .array vs => .concat [["["], compactItems vs, ["]"]]
  | .object ms => .concat [["\x7b"], compactMembers ms, ["\x7d"]]

def compactItems : List Json → Source
  | [] => []
  | v :: vs => .concat [compactSource v, if vs.isEmpty then [] else [","], compactItems vs]

def compactMembers : List Member → Source
  | [] => []
  | (key, v) :: ms =>
    .concat [[.literal key, ":"], compactSource v, if ms.isEmpty then [] else [","],
      compactMembers ms]

end

def compact (v : Json) : String := (compactSource v).render .json

end CurlCode.Json

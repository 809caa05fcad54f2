import CurlCode.Command
import CurlCode.Http.Response
import CurlCode.Target

/-! Texts that show commands, targets and responses to people and to other programs. -/
namespace CurlCode

namespace Command

def headersJson (hs : Headers) : Json := .object (hs.map fun h => (h.name, .string h.value))

def facetsJson (f : Facets) : Json :=
  .object [("is_json", .bool f.json), ("is_form", .bool f.form),
    ("is_multipart", .bool f.multipart)]

/-- The member for the body is left out when there is none. -/
def requestJson (r : Request) : Json :=
  .object ([("method", .string r.method), ("url", .string r.url),
      ("headers", headersJson r.headers)]
    ++ (match r.body with
      | some body => [("body", .string body)]
      | none => [])
    ++ [("facets", facetsJson r.facets)])

def toJson (c : Command) : Json :=
  .object [("descriptor", requestJson c.request),
    ("ignored", .array (c.ignored.map .string))]

def jsonText (c : Command) (pretty : Bool) : String :=
  if pretty then c.toJson.pretty else c.toJson.compact

def yesNo (b : Bool) : String := if b then "true" else "false"

def facetsText (f : Facets) : String :=
  "json=" ++ yesNo f.json ++ " form=" ++ yesNo f.form ++ " multipart=" ++ yesNo f.multipart

def headersText (hs : Headers) : String :=
  "\n--- Headers (" ++ toString hs.length ++ ") ---\n"
    ++ String.join (hs.map fun h => "  " ++ h.name ++ ": " ++ h.value ++ "\n")

def bodyText : Option String → String
  | some body =>
    "\n--- Body (" ++ toString body.utf8ByteSize ++ " bytes) ---\n" ++ body ++ "\n"
  | none => "\n--- No Body ---\n"

def ignoredText (tokens : List String) : String :=
  if tokens.isEmpty then ""
  else "\n--- Ignored (" ++ toString tokens.length ++ ") ---\n"
    ++ String.join (tokens.map fun t => "  " ++ t ++ "\n")

/-- The command laid out for reading. -/
def debugText (c : Command) : String :=
  "=== curl Request ===\n"
    ++ "Method:  " ++ c.request.method ++ "\n"
    ++ "URL:     " ++ c.request.url ++ "\n"
    ++ "Facets:  " ++ facetsText c.request.facets ++ "\n"
    ++ headersText c.request.headers ++ bodyText c.request.body ++ ignoredText c.ignored
    ++ "====================\n"

end Command

/-- Text filled with spaces on the right to at least `width` characters. -/
def padded (width : Nat) (s : String) : String :=
  s ++ String.ofList (List.replicate (width - s.length) ' ')

namespace Target

/-- Id, extension and label in columns. -/
def line (t : Target) : String :=
  padded 12 t.id ++ " " ++ padded 7 (t.extension.getD "-") ++ " " ++ t.label ++ "\n"

def table (ts : List Target) : String := String.join (ts.map line)

end Target

/-- The status, the headers and, after an empty line, the body. -/
def Http.Response.display (r : Http.Response) : String :=
  "Status: " ++ toString r.status ++ "\n"
    ++ String.join (r.headers.map fun h => h.name ++ ": " ++ h.value ++ "\n")
    ++ "\n" ++ r.body.content ++ "\n"

end CurlCode

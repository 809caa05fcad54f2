import CurlCode.Json.Dialect
import CurlCode.Payload

/-! JavaScript modules that use `fetch`. -/
namespace CurlCode.JavaScript

def dialect : Json.Dialect where
  objectOpen := "\x7b"
  objectClose := "\x7d"
  emptyObject := "\x7b\x7d"
  arrayOpen := "["
  arrayClose := "]"
  emptyArray := "[]"
  keySeparator := ": "
  null := "null"
  yes := "true"
  no := "false"
  trailingComma := false
  indent := "  "

def headers (r : Request) : Source :=
  if r.headers.isEmpty then []
  else .concat [["  headers: \x7b\n"],
    .forEach r.headers fun h => ["    ", .literal h.name, ": ", .literal h.value, ",\n"],
    ["  \x7d,\n"]]

def body (r : Request) : Source :=
  match r.payload? with
  | some (.json v) => .concat [["  body: JSON.stringify("], v.source dialect 1, ["),\n"]]
  | some (.form fields) =>
    .concat [["  body: new URLSearchParams([\n"],
      .forEach fields fun f => ["    [", .literal f.name, ", ", .literal f.value, "],\n"],
      ["  ]),\n"]]
  | some (.raw text) => ["  body: ", .literal text, ",\n"]
  | none => []

def source (r : Request) : Source :=
  .concat [["const response = await fetch(", .literal r.url, ", \x7b\n",
      "  method: ", .literal r.canonicalMethod, ",\n"],
    headers r, body r,
    ["\x7d);\n\n", "console.log(response.status);\n",
      "console.log(await response.text());\n"]]

end CurlCode.JavaScript

import CurlCode.Json.Dialect
import CurlCode.Payload

/-! Python scripts that use `requests`. -/
namespace CurlCode.Python

def dialect : Json.Dialect where
  objectOpen := "\x7b"
  objectClose := "\x7d"
  emptyObject := "\x7b\x7d"
  arrayOpen := "["
  arrayClose := "]"
  emptyArray := "[]"
  keySeparator := ": "
  null := "None"
  yes := "True"
  no := "False"
  trailingComma := false
  indent := "    "

def headers (r : Request) : Source :=
  if r.headers.isEmpty then []
  else .concat [["\nheaders = \x7b\n"],
    .forEach r.headers fun h => ["    ", .literal h.name, ": ", .literal h.value, ",\n"],
    ["\x7d\n"]]

/-- A dictionary, or a list of pairs when a field name repeats. -/
def form (fields : List Field) : Source :=
  if (fields.map Field.name).Nodup then
    .concat [["\x7b\n"],
      .forEach fields fun f => ["    ", .literal f.name, ": ", .literal f.value, ",\n"],
      ["\x7d"]]
  else
    .concat [["[\n"],
      .forEach fields fun f => ["    (", .literal f.name, ", ", .literal f.value, "),\n"],
      ["]"]]

def body (r : Request) : Source :=
  match r.payload? with
  | some (.json v) => .concat [["\npayload = "], v.source dialect 0, ["\n"]]
  | some (.form fields) => .concat [["\ndata = "], form fields, ["\n"]]
  | some (.raw text) => ["\ndata = ", .literal text, "\n"]
  | none => []

def arguments (r : Request) : Source :=
  .concat [["url"], if r.headers.isEmpty then [] else [", headers=headers"],
    match r.payload? with
    | some (.json _) => [", json=payload"]
    | some _ => [", data=data"]
    | none => []]

def call (r : Request) : Source :=
  match r.standardMethod? with
  | some m => .concat [["requests.", m.lowerName, "("], arguments r, [")"]]
  | none => .concat [["requests.request(", .literal r.method, ", "], arguments r, [")"]]

def source (r : Request) : Source :=
  .concat [["import requests\n\n", "url = ", .literal r.url, "\n"], headers r, body r,
    ["\nresponse = "], call r,
    ["\n\nprint(response.status_code)\nprint(response.text)\n"]]

end CurlCode.Python

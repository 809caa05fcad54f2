import CurlCode.Target.JavaScript

/-! Node.js scripts that use `axios`, which names the standard methods in lower case. -/
namespace CurlCode.Axios

def method (r : Request) : String :=
  match r.standardMethod? with
  | some m => m.lowerName
  | none => r.method

def headers (r : Request) : Source :=
  if r.headers.isEmpty then []
  else .concat [["    headers: \x7b\n"],
    .forEach r.headers fun h => ["      ", .literal h.name, ": ", .literal h.value, ",\n"],
    ["    \x7d,\n"]]

def body (r : Request) : Source :=
  match r.payload? with
  | some (.json v) => .concat [["    data: "], v.source JavaScript.dialect 2, [",\n"]]
  | some (.form fields) =>
    .concat [["    data: new URLSearchParams([\n"],
      .forEach fields fun f => ["      [", .literal f.name, ", ", .literal f.value, "],\n"],
      ["    ]),\n"]]
  | some (.raw text) => ["    data: ", .literal text, ",\n"]
  | none => []

def source (r : Request) : Source :=
  .concat [["const axios = require(\"axios\");\n\n", "axios\n  .request(\x7b\n",
      "    method: ", .literal (method r), ",\n",
      "    url: ", .literal r.url, ",\n"],
    headers r, body r,
    ["  \x7d)\n", "  .then((response) => \x7b\n", "    console.log(response.status);\n",
      "    console.log(response.data);\n", "  \x7d)\n",
      "  .catch((error) => console.error(error));\n"]]

end CurlCode.Axios

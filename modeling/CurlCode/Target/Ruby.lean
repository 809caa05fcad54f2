import CurlCode.Json.Dialect
import CurlCode.Payload

/-! Ruby scripts that use `Net::HTTP`, which has a class for every standard method. -/
namespace CurlCode.Ruby

def dialect : Json.Dialect where
  objectOpen := "\x7b"
  objectClose := "\x7d"
  emptyObject := "\x7b\x7d"
  arrayOpen := "["
  arrayClose := "]"
  emptyArray := "[]"
  keySeparator := " => "
  null := "nil"
  yes := "true"
  no := "false"
  trailingComma := false
  indent := "  "

def imports (r : Request) : Source :=
  .concat [["require 'net/http'\n"],
    match r.payload? with
    | some (.json _) => ["require 'json'\n"]
    | _ => [],
    ["require 'uri'\n\n"]]

def construction (r : Request) : Source :=
  match r.standardMethod? with
  | some m => ["request = Net::HTTP::", m.capitalName, ".new(uri)\n"]
  | none =>
    ["request = Net::HTTPGenericRequest.new(", .literal r.method, ", ",
      if r.body.isSome then "true" else "false", ", true, uri)\n"]

def body (r : Request) : Source :=
  match r.payload? with
  | some (.json v) =>
    .concat [["request.body = JSON.generate("], v.source dialect 0, [")\n"]]
  | some (.form fields) =>
    .concat [["request.set_form_data(\n  [\n"],
      .forEach fields fun f => ["    [", .literal f.name, ", ", .literal f.value, "],\n"],
      ["  ]\n)\n"]]
  | some (.raw text) => ["request.body = ", .literal text, "\n"]
  | none => []

def source (r : Request) : Source :=
  .concat [imports r, ["uri = URI(", .literal r.url, ")\n\n"], construction r,
    .forEach r.headers fun h => ["request[", .literal h.name, "] = ", .literal h.value, "\n"],
    body r,
    ["\nresponse = Net::HTTP.start(uri.hostname, uri.port, ",
      "use_ssl: uri.scheme == 'https') do |http|\n", "  http.request(request)\n", "end\n\n",
      "puts response.code\n", "puts response.body\n"]]

end CurlCode.Ruby

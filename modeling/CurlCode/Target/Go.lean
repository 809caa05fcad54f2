import CurlCode.Json.Dialect
import CurlCode.Payload

/-! Go programs that use `net/http`. -/
namespace CurlCode.Go

def dialect : Json.Dialect where
  objectOpen := "map[string]any\x7b"
  objectClose := "\x7d"
  emptyObject := "map[string]any\x7b\x7d"
  arrayOpen := "[]any\x7b"
  arrayClose := "\x7d"
  emptyArray := "[]any\x7b\x7d"
  keySeparator := ": "
  null := "nil"
  yes := "true"
  no := "false"
  trailingComma := true
  indent := "\t"

def checkError : Fragment := "\tif err != nil \x7b\n\t\tpanic(err)\n\t\x7d\n"

/-- The packages that the body calls for. -/
def packages (r : Request) : List String :=
  match r.payload? with
  | some (.json _) => ["bytes", "encoding/json", "fmt", "io", "net/http"]
  | some _ => ["fmt", "io", "net/http", "strings"]
  | none => ["fmt", "io", "net/http"]

/-- The statements that prepare the body. -/
def setup (r : Request) : Source :=
  match r.payload? with
  | some (.json v) =>
    .concat [["\tpayload, err := json.Marshal("], v.source dialect 1, [")\n", checkError, "\n"]]
  | some _ => ["\tbody := strings.NewReader(", .literal (r.body.getD ""), ")\n\n"]
  | none => []

def reader (r : Request) : Fragment :=
  match r.payload? with
  | some (.json _) => "bytes.NewReader(payload)"
  | some _ => "body"
  | none => "nil"

def source (r : Request) : Source :=
  .concat [["package main\n\nimport (\n"],
    .forEach (packages r) fun p => ["\t", .literal p, "\n"],
    [")\n\nfunc main() \x7b\n"], setup r,
    ["\treq, err := http.NewRequest(", .literal r.canonicalMethod, ", ", .literal r.url, ", ",
      reader r, ")\n", checkError],
    .forEach r.headers fun h =>
      ["\treq.Header.Set(", .literal h.name, ", ", .literal h.value, ")\n"],
    ["\n\tresp, err := http.DefaultClient.Do(req)\n", checkError,
      "\tdefer resp.Body.Close()\n\n", "\trespBody, err := io.ReadAll(resp.Body)\n", checkError,
      "\tfmt.Println(resp.Status)\n", "\tfmt.Println(string(respBody))\n", "\x7d\n"]]

end CurlCode.Go

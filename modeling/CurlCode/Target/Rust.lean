import CurlCode.Json.Dialect
import CurlCode.Payload

/-! Rust programs that use `reqwest`. The argument of `serde_json::json!` is JSON itself. -/
namespace CurlCode.Rust

def dialect : Json.Dialect where
  objectOpen := "\x7b"
  objectClose := "\x7d"
  emptyObject := "\x7b\x7d"
  arrayOpen := "["
  arrayClose := "]"
  emptyArray := "[]"
  keySeparator := ": "
  null := "null"
  yes := "true"
  no := "false"
  trailingComma := false
  indent := "    "

def method (r : Request) : Source :=
  match r.standardMethod? with
  | some m => ["reqwest::Method::", m.name]
  | none => ["reqwest::Method::from_bytes(", .literal r.method, ".as_bytes())?"]

def body (r : Request) : Source :=
  match r.payload? with
  | some (.json v) =>
    .concat [["        .body(serde_json::json!("], v.source dialect 2, [").to_string())\n"]]
  | some _ => ["        .body(", .literal (r.body.getD ""), ")\n"]
  | none => []

def source (r : Request) : Source :=
  .concat [["#[tokio::main]\n",
      "async fn main() -> Result<(), Box<dyn std::error::Error>> \x7b\n",
      "    let client = reqwest::Client::new();\n\n",
      "    let response = client\n", "        .request("],
    method r, [", ", .literal r.url, ")\n"],
    .forEach r.headers fun h =>
      ["        .header(", .literal h.name, ", ", .literal h.value, ")\n"],
    body r,
    ["        .send()\n", "        .await?;\n\n",
      "    println!(\"\x7b\x7d\", response.status());\n",
      "    println!(\"\x7b\x7d\", response.text().await?);\n", "    Ok(())\n", "\x7d\n"]]

end CurlCode.Rust

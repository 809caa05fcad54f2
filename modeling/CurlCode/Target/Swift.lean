import CurlCode.Json.Dialect
import CurlCode.Payload

/-!
Swift scripts that use `URLSession`. Empty containers are spelled with their type, and
only a container can be serialised, so a JSON scalar is sent as text.
-/
namespace CurlCode.Swift

def dialect : Json.Dialect where
  objectOpen := "["
  objectClose := "]"
  emptyObject := "[String: Any]()"
  arrayOpen := "["
  arrayClose := "]"
  emptyArray := "[Any]()"
  keySeparator := ": "
  null := "NSNull()"
  yes := "true"
  no := "false"
  trailingComma := false
  indent := "    "

def textBody (r : Request) : Source :=
  ["request.httpBody = Data(", .literal (r.body.getD ""), ".utf8)\n"]

def body (r : Request) : Source :=
  match r.payload? with
  | some (.json v) =>
    if v.isContainer then
      .concat [["\nlet payload: ", if v.isArray then "[Any]" else "[String: Any]", " = "],
        v.source dialect 0,
        ["\nrequest.httpBody = try JSONSerialization.data(withJSONObject: payload)\n"]]
    else textBody r
  | some _ => textBody r
  | none => []

def source (r : Request) : Source :=
  .concat [["import Foundation\n\n",
      "var request = URLRequest(url: URL(string: ", .literal r.url, ")!)\n",
      "request.httpMethod = ", .literal r.canonicalMethod, "\n"],
    .forEach r.headers fun h =>
      ["request.setValue(", .literal h.value, ", forHTTPHeaderField: ", .literal h.name,
        ")\n"],
    body r,
    ["\nlet (data, response) = try await URLSession.shared.data(for: request)\n",
      "if let httpResponse = response as? HTTPURLResponse \x7b\n",
      "    print(httpResponse.statusCode)\n", "\x7d\n",
      "print(String(decoding: data, as: UTF8.self))\n"]]

end CurlCode.Swift

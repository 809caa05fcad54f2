import CurlCode.Request
import CurlCode.Source
import CurlCode.Text.Blank

/-!
C# programs that use `HttpClient`. Headers that describe the content belong to the
content object, which exists only when there is a body; all keep their order.
-/
namespace CurlCode.CSharp

open Text

/-- `Content-…` and `Expires`, in any letter case. -/
def isContentHeader (name : String) : Bool :=
  (sameLetters (String.ofList (name.toList.take 8)) "content-" && 8 < name.toList.length)
    || sameLetters name "expires"

def defaultMediaType : String := "application/x-www-form-urlencoded"

/-- The `Content-Type` without its parameters. -/
def mediaType (r : Request) : String :=
  match r.headers.lookup? "content-type" with
  | some value =>
    let bare := trim (String.ofList (value.toList.takeWhile (· ≠ ';')))
    if bare = "" then defaultMediaType else bare
  | none => defaultMediaType

def method (r : Request) : Source :=
  match r.standardMethod? with
  | some m => ["HttpMethod.", m.capitalName]
  | none => ["new HttpMethod(", .literal r.method, ")"]

def body (r : Request) : Source :=
  match r.body with
  | some text =>
    ["request.Content = new StringContent(", .literal text, ", Encoding.UTF8, ",
      .literal (mediaType r), ");\n"]
  | none => []

def header (r : Request) (h : Header) : Source :=
  if r.body.isSome ∧ isContentHeader h.name then
    ["request.Content.Headers.Remove(", .literal h.name, ");\n",
      "request.Content.Headers.TryAddWithoutValidation(", .literal h.name, ", ",
      .literal h.value, ");\n"]
  else
    ["request.Headers.TryAddWithoutValidation(", .literal h.name, ", ", .literal h.value,
      ");\n"]

def source (r : Request) : Source :=
  .concat [["using System;\nusing System.Net.Http;\n"],
    if r.body.isSome then ["using System.Text;\n"] else [],
    ["\nusing var client = new HttpClient();\n\n",
      "using var request = new HttpRequestMessage("],
    method r, [", ", .literal r.url, ");\n"], body r, .forEach r.headers (header r),
    ["\nusing var response = await client.SendAsync(request);\n",
      "Console.WriteLine((int)response.StatusCode);\n",
      "Console.WriteLine(await response.Content.ReadAsStringAsync());\n"]]

end CurlCode.CSharp

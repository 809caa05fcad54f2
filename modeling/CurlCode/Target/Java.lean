import CurlCode.Request
import CurlCode.Source

/-!
Java programs that use `java.net.http`. The language has no literal for nested data, so
every body is a string.
-/
namespace CurlCode.Java

/-- The builder has calls of its own for `GET` and `DELETE` without a body. -/
def method (r : Request) : Source :=
  match r.body, r.standardMethod? with
  | some body, _ =>
    ["            .method(", .literal r.canonicalMethod,
      ", HttpRequest.BodyPublishers.ofString(", .literal body, "))\n"]
  | none, some .get => ["            .GET()\n"]
  | none, some .delete => ["            .DELETE()\n"]
  | none, _ =>
    ["            .method(", .literal r.canonicalMethod,
      ", HttpRequest.BodyPublishers.noBody())\n"]

def source (r : Request) : Source :=
  .concat [["import java.net.URI;\n", "import java.net.http.HttpClient;\n",
      "import java.net.http.HttpRequest;\n", "import java.net.http.HttpResponse;\n",
      "\npublic class Main \x7b\n",
      "    public static void main(String[] args) throws Exception \x7b\n",
      "        HttpClient client = HttpClient.newHttpClient();\n\n",
      "        HttpRequest request = HttpRequest.newBuilder()\n",
      "            .uri(URI.create(", .literal r.url, "))\n"],
    method r,
    .forEach r.headers fun h =>
      ["            .header(", .literal h.name, ", ", .literal h.value, ")\n"],
    ["            .build();\n\n",
      "        HttpResponse<String> response = ",
      "client.send(request, HttpResponse.BodyHandlers.ofString());\n\n",
      "        System.out.println(response.statusCode());\n",
      "        System.out.println(response.body());\n", "    \x7d\n\x7d\n"]]

end CurlCode.Java

import CurlCode.Json.Dialect
import CurlCode.Payload

/-!
PHP scripts that use the curl extension. Objects and lists are both arrays there, so the
empty object, which would encode as a list, is written as an instance of `stdClass`.
-/
namespace CurlCode.Php

def dialect : Json.Dialect where
  objectOpen := "["
  objectClose := "]"
  emptyObject := "new \\stdClass()"
  arrayOpen := "["
  arrayClose := "]"
  emptyArray := "[]"
  keySeparator := " => "
  null := "null"
  yes := "true"
  no := "false"
  trailingComma := false
  indent := "    "

def headers (r : Request) : Source :=
  if r.headers.isEmpty then []
  else .concat [["curl_setopt($ch, CURLOPT_HTTPHEADER, [\n"],
    .forEach r.headers fun h => ["    ", .literal (h.name ++ ": " ++ h.value), ",\n"],
    ["]);\n"]]

def body (r : Request) : Source :=
  match r.payload? with
  | some (.json v) =>
    .concat [["curl_setopt($ch, CURLOPT_POSTFIELDS, json_encode("], v.source dialect 0,
      ["));\n"]]
  | some _ => ["curl_setopt($ch, CURLOPT_POSTFIELDS, ", .literal (r.body.getD ""), ");\n"]
  | none => []

def source (r : Request) : Source :=
  .concat [["<?php\n\n$ch = curl_init();\n\n",
      "curl_setopt($ch, CURLOPT_URL, ", .literal r.url, ");\n",
      "curl_setopt($ch, CURLOPT_RETURNTRANSFER, true);\n",
      "curl_setopt($ch, CURLOPT_CUSTOMREQUEST, ", .literal r.canonicalMethod, ");\n"],
    headers r, body r,
    ["\n$response = curl_exec($ch);\n", "$status = curl_getinfo($ch, CURLINFO_HTTP_CODE);\n",
      "curl_close($ch);\n\n", "echo $status . PHP_EOL;\n", "echo $response . PHP_EOL;\n"]]

end CurlCode.Php

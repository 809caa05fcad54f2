import CurlCode.Url.Host

/-!
URLs in normal form: every part is encoded and the default port is left out, so the text
of a URL is its parts with their delimiters.
-/
namespace CurlCode

open Text

inductive UrlPath where
  /-- The path of a URL such as `mailto:x`, which is no hierarchy. -/
  | opaquePath (text : String)
  | segments (parts : List String)
  deriving DecidableEq, Repr

structure Url where
  scheme : String
  username : String
  password : String
  host : Option Host
  port : Option Nat
  path : UrlPath
  query : Option String
  fragment : Option String
  deriving DecidableEq, Repr

namespace Url

/-- The port that a special scheme uses if none is given; `file` has none. -/
def defaultPort? : String → Option Nat
  | "http" | "ws" => some 80
  | "https" | "wss" => some 443
  | "ftp" => some 21
  | _ => none

def isSpecial (scheme : String) : Bool :=
  scheme == "file" || (defaultPort? scheme).isSome

/-- There is a host to connect to. -/
def hasHost (u : Url) : Bool :=
  match u.host with
  | some .empty | none => false
  | some _ => true

def credentialsText (u : Url) : String :=
  if u.username = "" ∧ u.password = "" then ""
  else u.username ++ (if u.password = "" then "" else ":" ++ u.password) ++ "@"

/-- Host and port, as in a `Host` header. -/
def authorityText (u : Url) : String :=
  (u.host.map Host.text).getD ""
    ++ (match u.port with
      | some p => ":" ++ toString p
      | none => "")

def segmentsText (parts : List String) : String := String.join (parts.map ("/" ++ ·))

/-- The path, set off by `/.` where it would read as a host. -/
def pathText (u : Url) : String :=
  match u.path with
  | .opaquePath t => t
  | .segments parts =>
    if u.host = none ∧ 1 < parts.length ∧ parts.head? = some "" then "/." ++ segmentsText parts
    else segmentsText parts

def delimited (mark : String) : Option String → String
  | some t => mark ++ t
  | none => ""

def text (u : Url) : String :=
  u.scheme ++ ":"
    ++ (if u.host.isSome then "//" ++ u.credentialsText ++ u.authorityText else "")
    ++ u.pathText ++ delimited "?" u.query ++ delimited "#" u.fragment

def withoutCredentials (u : Url) : Url := { u with username := "", password := "" }

def withoutFragment (u : Url) : Url := { u with fragment := none }

end Url

end CurlCode

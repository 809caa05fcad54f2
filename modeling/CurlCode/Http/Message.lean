import CurlCode.Request
import CurlCode.Text.Base64
import CurlCode.Text.Blank
import CurlCode.Url.Resolve

/-!
Requests as they go out. The parts of a request are checked in a fixed order: method,
URL, each header's name and value in turn, and last that the URL has a host. Header names
are in lower case, so entries that differ in letter case only become one header with
several values.
-/
namespace CurlCode.Http

open Text

/-- Why no response was had from a request that could be built, or from its URL. -/
inductive TransportError where
  /-- The URL has no host, or no request can be made of it. -/
  | unsendable (url : String)
  /-- No HTTP response came back. -/
  | noResponse (url : String)
  | tooManyRedirects (url : String)
  /-- The body was cut short or ill-formed. -/
  | brokenBody
  deriving DecidableEq, Repr

def TransportError.message : TransportError → String
  | .unsendable url => "builder error for url (" ++ url ++ ")"
  | .noResponse url => "error sending request for url (" ++ url ++ ")"
  | .tooManyRedirects url => "error following redirect for url (" ++ url ++ ")"
  | .brokenBody => "error decoding response body"

/-- Spaces and tabs at both ends of a header value mean nothing. -/
def isFieldBlank (c : Char) : Bool := c == ' ' || c == '\t'

def isTokenChar (c : Char) : Bool :=
  c.isAlphanum || c == '!' || c == '#' || c == '$' || c == '%' || c == '&' || c == '\''
    || c == '*' || c == '+' || c == '-' || c == '.' || c == '^' || c == '_' || c == '\x60'
    || c == '|' || c == '~'

/-- One or more token characters: what methods and header names are made of. -/
def isToken (s : String) : Bool := !s.toList.isEmpty && s.toList.all isTokenChar

/-- A header value holds no control character but tab. -/
def isFieldValue (s : String) : Bool :=
  s.toList.all fun c => c == '\t' || (0x20 ≤ c.toNat && c.toNat ≠ 0x7F)

def isSendable (h : Header) : Bool := isToken h.name && isFieldValue h.value

structure Message where
  method : String
  /-- The address, without credentials. -/
  url : Url
  /-- The headers of the request itself, with names in lower case. -/
  headers : Headers
  body : Option String
  deriving DecidableEq, Repr

inductive BuildError where
  | method (method : String)
  | url (url : String) (cause : UrlError)
  | header (name : String)
  | noHost (url : Url)
  deriving DecidableEq, Repr

namespace Message

/-- The user name and password of a URL with their escapes decoded. A name that is no
UTF-8 counts as no credentials, such a password as no password. -/
def credentials? (u : Url) : Option (String × Option String) :=
  match ofUtf8? (percentDecode (utf8 u.username)) with
  | none => none
  | some user =>
    let pass := if u.password = "" then none else ofUtf8? (percentDecode (utf8 u.password))
    if user = "" ∧ pass = none then none else some (user, pass)

def basicAuthorization (user : String) (pass : Option String) : Header :=
  ⟨"authorization", "Basic " ++ String.ofList (base64 (utf8 (user ++ ":" ++ pass.getD "")))⟩

def ofRequest [Idna] (r : Request) : Except BuildError Message :=
  if !isToken r.method then .error (.method r.method)
  else
    match Url.parse r.url with
    | .error cause => .error (.url r.url cause)
    | .ok u =>
      match r.headers.find? fun h => !isSendable h with
      | some h => .error (.header h.name)
      | none =>
        if !u.hasHost then .error (.noHost u)
        else
          let own := r.headers.map fun h => ⟨lower h.name, h.value⟩
          match credentials? u with
          | some (user, pass) =>
            .ok ⟨r.method, u.withoutCredentials, basicAuthorization user pass :: own, r.body⟩
          | none => .ok ⟨r.method, u, own, r.body⟩

/-- An HTTP address of at most 65534 bytes, with a host that a request line can name. -/
def isAddress (u : Url) : Bool :=
  (u.scheme == "http" || u.scheme == "https") && u.text.utf8ByteSize ≤ 65534
    && u.authorityText.toList.all fun c =>
      c != '"' && c != '\x60' && c != '\x7b' && c != '\x7d'

/-- A header for a name that the message has none for. -/
def default (m : Message) (name value : String) : Headers :=
  if m.headers.any fun h => h.name = name then [] else [⟨name, value⟩]

def bodyBytes (m : Message) : Nat := (m.body.getD "").utf8ByteSize

/-- All headers that go out, by name; values of one name stay in order. -/
def wireHeaders (m : Message) : Headers :=
  let own := m.headers.map fun h =>
    (⟨h.name, String.ofList (trimBy isFieldBlank h.value.toList)⟩ : Header)
  let all := own ++ m.default "accept" "*/*" ++ m.default "host" m.url.authorityText
    ++ (if m.bodyBytes = 0 then []
      else m.default "content-length" (toString m.bodyBytes))
  all.mergeSort fun a b => decide (a.name ≤ b.name)

end Message

/-- What a peer gets to see of a message. -/
structure Delivery where
  method : String
  url : String
  headers : Headers
  body : String
  deriving DecidableEq, Repr

def Message.delivery (m : Message) : Delivery :=
  ⟨m.method, m.url.withoutCredentials.withoutFragment.text, m.wireHeaders, m.body.getD ""⟩

/-- The address as errors name it. -/
def Message.address (m : Message) : String := m.url.text

end CurlCode.Http

import CurlCode.Command.Occurrence
import CurlCode.Form
import CurlCode.Request
import CurlCode.Text.Blank

/-!
Reading a request off the arguments of a command line, from left to right. The last
method, data and URL option wins; a bare token is the URL if there is none yet.
-/
namespace CurlCode

open Text

/-- Why a command line describes no request. -/
inductive CommandError where
  | empty
  | notCurl (found : String)
  | missingUrl
  | tooLong (limit : Nat)
  | tooManyHeaders (limit : Nat)
  deriving DecidableEq, Repr

namespace CommandError

def reason : CommandError → String
  | .empty => "empty input"
  | .notCurl found => "expected the command to start with 'curl', found '" ++ found ++ "'"
  | .missingUrl => "no URL found"
  | .tooLong limit => "input exceeds maximum length of " ++ toString limit ++ " bytes"
  | .tooManyHeaders limit => "number of headers exceeds maximum of " ++ toString limit

def message (e : CommandError) : String := "invalid invocation: " ++ e.reason

end CommandError

structure Limits where
  /-- The longest command line, in UTF-8 bytes. -/
  inputBytes : Nat := 65536
  /-- The most header names. -/
  headers : Nat := 128
  deriving DecidableEq, Repr

/-- What has been read so far. -/
structure Walk where
  method : Option String
  url : Option String
  headers : Headers
  data : Option String
  /-- The data goes into the query. -/
  dataInQuery : Bool
  /-- The tokens that say nothing about the request. -/
  ignored : Array String
  deriving DecidableEq, Repr

namespace Walk

def start : Walk := ⟨none, none, [], none, false, #[]⟩

def ignore (token : String) (w : Walk) : Walk := { w with ignored := w.ignored.push token }

def readBare (token : String) (w : Walk) : Walk :=
  if w.url.getD "" = "" ∧ token ≠ "" then { w with url := some token } else w.ignore token

def readSwitch (flag : Flag) (w : Walk) : Walk :=
  match flag with
  | .head => { w with method := some "HEAD" }
  | .get => { w with dataInQuery := true }
  | _ => w

/-- Put a header, unless its name is one too many. -/
def putHeader (limit : Nat) (name value : String) (w : Walk) : Except CommandError Walk :=
  if name ∉ w.headers.names ∧ limit ≤ w.headers.length then .error (.tooManyHeaders limit)
  else .ok { w with headers := w.headers.put name value }

/-- Put a header unless one of that name, in any letter case, is there. -/
def putDefault (limit : Nat) (name value : String) (w : Walk) : Except CommandError Walk :=
  if w.headers.has name then .ok w else w.putHeader limit name value

/-- The trimmed name and value of a header line; `none` without a colon. -/
def headerOfLine? (line : String) : Option Header :=
  (cut? ':' line.toList).map fun (name, value) =>
    ⟨String.ofList (trimBy isBlank name), String.ofList (trimBy isBlank value)⟩

def readValued (limit : Nat) (flag : Flag) (token value : String) (w : Walk) :
    Except CommandError Walk :=
  match flag with
  | .method => .ok { w with method := some value }
  | .header =>
    match headerOfLine? value with
    | some h => w.putHeader limit h.name h.value
    | none => .ok ((w.ignore token).ignore value)
  | .data => .ok { w with data := some value }
  | .dataUrlEncode => .ok { w with data := some (Form.encodeArgument value) }
  | .json => do
    let w ← { w with data := some value }.putDefault limit "Content-Type" "application/json"
    w.putDefault limit "Accept" "application/json"
  | .url => .ok { w with url := some value }
  | .userAgent => w.putHeader limit "User-Agent" value
  | .referer => w.putHeader limit "Referer" value
  | .skipped => .ok ((w.ignore token).ignore value)
  | .head | .get => .ok w

def read (limit : Nat) (w : Walk) : Occurrence → Except CommandError Walk
  | .bare token => .ok (w.readBare token)
  | .switch flag => .ok (w.readSwitch flag)
  | .valued flag token value => w.readValued limit flag token value
  | .stray token => .ok (w.ignore token)

/-- The URL with a query appended to the one it may have. -/
def withQuery (url query : String) : String :=
  url ++ (if '?' ∈ url.toList then "&" else "?") ++ query

/-- The data as body, unless it goes into the query. -/
def body (w : Walk) : Option String := if w.dataInQuery then none else w.data

def fullUrl (w : Walk) (url : String) : String :=
  match w.dataInQuery, w.data with
  | true, some query => withQuery url query
  | _, _ => url

/-- Without a method of its own, a request with a body is a `POST`. -/
def inferredMethod (w : Walk) : String :=
  w.method.getD (if w.body.isSome then "POST" else "GET")

def finish (w : Walk) : Except CommandError Request :=
  match w.url with
  | none => .error .missingUrl
  | some url =>
    if url = "" then .error .missingUrl
    else .ok ⟨w.inferredMethod, w.fullUrl url, w.headers, w.body⟩

end Walk

end CurlCode

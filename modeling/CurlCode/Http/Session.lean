import CurlCode.Http.Answer
import CurlCode.Http.Message

/-!
Sending a request and following redirects. The peers are given by their replies, one for
each request that goes out; when no reply is left, nobody takes the connection.
-/
namespace CurlCode.Http

open Text

inductive Reply where
  /-- Nothing comes back in time. -/
  | silence
  /-- These bytes come back, and the connection closes. -/
  | bytes (content : List UInt8)
  /-- A response with the length of its body announced. -/
  | response (status : Nat) (headers : Headers) (body : List UInt8)
  deriving DecidableEq, Repr

/-- The bytes that come back on a request, if any do. -/
def Reply.content? (method : String) : Reply → Option (List UInt8)
  | .silence => none
  | .bytes content => some content
  | .response status headers body => some (Answer.toBytes method status headers body)

structure Settings where
  timeoutMilliseconds : Nat := 30000
  followRedirects : Bool := true
  /-- The most redirects that are followed. -/
  maxRedirects : Nat := 10
  deriving DecidableEq, Repr

inductive ExecuteError where
  | build (e : BuildError)
  | cancelled
  | timeout (milliseconds : Nat)
  | transport (e : TransportError)
  deriving DecidableEq, Repr

/-- A length of time in its largest unit, with the fraction that is needed. -/
def durationText (milliseconds : Nat) : String :=
  let seconds := milliseconds / 1000
  let rest := milliseconds % 1000
  if milliseconds = 0 then "0ns"
  else if seconds = 0 then toString rest ++ "ms"
  else if rest = 0 then toString seconds ++ "s"
  else
    let digits := (toString (1000 + rest)).toList.tail
    toString seconds ++ "." ++ String.ofList (digits.reverse.dropWhile (· == '0')).reverse ++ "s"

def ExecuteError.message : ExecuteError → String
  | .build (.method m) => "invalid HTTP method: '" ++ m ++ "'"
  | .build (.url u cause) => "invalid URL '" ++ u ++ "': " ++ cause.message
  | .build (.header name) => "invalid header '" ++ name ++ "'"
  | .build (.noHost u) => "transport error: " ++ (TransportError.unsendable u.text).message
  | .cancelled => "request cancelled"
  | .timeout ms => "request timed out after " ++ durationText ms
  | .transport e => "transport error: " ++ e.message

/-- What went out, and what came of it. -/
structure Transcript where
  sent : List Delivery
  outcome : Except ExecuteError Response

namespace Session

def isRedirect (status : Nat) : Bool :=
  status == 301 || status == 302 || status == 303 || status == 307 || status == 308

/-- Where an answer redirects to. -/
def target? [Idna] (m : Message) (a : Answer) : Option Url :=
  if isRedirect a.status then do
    let (_, value) ← a.headers.find? fun h => h.1 = "location"
    (m.url.resolve (← ofUtf8? value)).toOption
  else none

/-- The request after a redirect no longer has the method and body of the one before. -/
def dropsBody (status : Nat) (method : String) : Bool :=
  status == 303 || ((status == 301 || status == 302) && method == "POST")

def bodyHeaders : List String :=
  ["content-type", "content-length", "content-encoding", "transfer-encoding"]

/-- Headers that only the host they were meant for may see. -/
def privateHeaders : List String :=
  ["authorization", "cookie", "cookie2", "proxy-authorization", "www-authenticate"]

def without (names : List String) (hs : Headers) : Headers :=
  hs.filter fun h => h.name ∉ names

def portOf (u : Url) : Option Nat := u.port.or (Url.defaultPort? u.scheme)

def sameHost (u v : Url) : Bool := u.host == v.host && portOf u == portOf v

/-- The page that refers to the next one; a secure page does not show itself to an
insecure one. -/
def referer (previous next : Url) : Headers :=
  if next.scheme = "http" ∧ previous.scheme = "https" then []
  else [⟨"referer", previous.withoutCredentials.withoutFragment.text⟩]

/-- The message that follows a redirect. -/
def redirected (m : Message) (status : Nat) (next : Url) : Message :=
  let dropped := dropsBody status m.method
  let method := if dropped ∧ m.method ≠ "HEAD" then "GET" else m.method
  let headers := if dropped then without bodyHeaders m.headers else m.headers
  let headers := if sameHost m.url next then headers else without privateHeaders headers
  let about := referer m.url next
  let headers := without (about.map Header.name) headers ++ about
  ⟨method, next.withoutCredentials, headers, if dropped then none else m.body⟩

/-- The answer that a reply brings. -/
def receive [Wire] (settings : Settings) (m : Message) (reply : Reply) :
    Except ExecuteError Answer :=
  match reply.content? m.method with
  | none => .error (.timeout settings.timeoutMilliseconds)
  | some content =>
    match Wire.answer? m.method content with
    | some answer => .ok answer
    | none => .error (.transport (.noResponse m.address))

/-- The redirect to follow, if an answer is one and redirects are followed at all. -/
def next? [Idna] (settings : Settings) (m : Message) (a : Answer) : Option Url :=
  if settings.followRedirects then target? m a else none

/-- The result of a run that ends with this answer. -/
def conclude (a : Answer) : Except ExecuteError Response :=
  match a.toResponse? with
  | some r => .ok r
  | none => .error (.transport .brokenBody)

/-- Send a message, and up to `hops` more that it is redirected to. -/
def run [Idna] [Wire] (settings : Settings) (hops : Nat) (m : Message) (replies : List Reply) :
    Transcript :=
  if !Message.isAddress m.url then ⟨[], .error (.transport (.unsendable m.address))⟩
  else
    match replies with
    | [] => ⟨[], .error (.transport (.noResponse m.address))⟩
    | reply :: rest =>
      match receive settings m reply with
      | .error e => ⟨[m.delivery], .error e⟩
      | .ok answer =>
        match next? settings m answer with
        | none => ⟨[m.delivery], conclude answer⟩
        | some next =>
          if hops = 0 then ⟨[m.delivery], .error (.transport (.tooManyRedirects m.address))⟩
          else
            let t := run settings (hops - 1) (redirected m answer.status next) rest
            ⟨m.delivery :: t.sent, t.outcome⟩

end Session

/-- Send a request. A run that is cancelled at the start only builds it. -/
def execute [Idna] [Wire] (settings : Settings) (cancelled : Bool) (r : Request)
    (replies : List Reply) : Transcript :=
  match Message.ofRequest r with
  | .error e => ⟨[], .error (.build e)⟩
  | .ok m =>
    if cancelled then ⟨[], .error .cancelled⟩
    else Session.run settings settings.maxRedirects m replies

end CurlCode.Http

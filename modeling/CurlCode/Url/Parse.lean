import CurlCode.Text.Blank
import CurlCode.Url.Basic
import CurlCode.Url.Path

/-!
Reading URLs. The fragment and the query are cut off first, since nothing before them
can hold their marks; the scheme then decides how the rest is read.
-/
namespace CurlCode.Url

open Text

/-- The text that counts: without blanks and control characters at the ends, and without
tabs and line ends anywhere. -/
def cleaned (s : String) : List Char :=
  (trimBy (·.toNat ≤ 0x20) s.toList).filter fun c => c ≠ '\t' ∧ c ≠ '\n' ∧ c ≠ '\r'

/-- The parts around the query and the fragment. -/
structure Parts where
  main : List Char
  query : Option (List Char)
  fragment : Option (List Char)
  deriving DecidableEq, Repr

def Parts.of (s : List Char) : Parts :=
  let (s, fragment) := match cut? '#' s with
    | some (a, b) => (a, some b)
    | none => (s, none)
  match cut? '?' s with
  | some (a, b) => ⟨a, some b, fragment⟩
  | none => ⟨s, none, fragment⟩

/-- Nothing comes after the authority and the path. -/
def Parts.endsHere (p : Parts) : Bool := p.query.isNone && p.fragment.isNone

def isSchemeChar (c : Char) : Bool := c.isAlphanum || c == '+' || c == '-' || c == '.'

/-- The scheme in lower case, and what follows its colon. -/
def readScheme? (s : List Char) : Option (String × List Char) :=
  match cut? ':' s with
  | some (c :: name, rest) =>
    if c.isAlpha ∧ name.all isSchemeChar then
      some (String.ofList ((c :: name).map Char.toLower), rest)
    else none
  | _ => none

/-- A separator of segments. -/
def isSlash (special : Bool) (c : Char) : Bool := c == '/' || (special && c == '\\')

/-- The segments after a leading slash. -/
def splitPath (special : Bool) (s : List Char) : List (List Char) :=
  pieces '/' (s.map fun c => if isSlash special c then '/' else c)

/-- The URL with its query and fragment put on. -/
def attach (p : Parts) (u : Url) : Url :=
  let keep := if isSpecial u.scheme then keepsInSpecialQuery else keepsInQuery
  { u with query := p.query.map (encode keep), fragment := p.fragment.map (encode keepsInFragment) }

/-- The text around the last `@`. -/
def cutCredentials (s : List Char) : Option (List Char × List Char) :=
  (cut? '@' s.reverse).map fun (a, b) => (b.reverse, a.reverse)

/-- The host before the first colon outside brackets. -/
def spanHost (bracketed : Bool) : List Char → List Char × List Char
  | [] => ([], [])
  | c :: r =>
    if c = ':' ∧ !bracketed then ([], c :: r)
    else
      let inside := if c = '[' then true else if c = ']' then false else bracketed
      let (host, rest) := spanHost inside r
      (c :: host, rest)

/-- The port after a host, unless it is the default one, and what follows its digits. -/
def readPort (scheme : String) (s : List Char) : Except UrlError (Option Nat × List Char) :=
  match s with
  | ':' :: r =>
    let digits := r.takeWhile Char.isDigit
    let rest := r.dropWhile Char.isDigit
    let port := decimalNumber? digits
    if 65535 < port.getD 0 ∨ (rest ≠ [] ∧ rest.head? ≠ some '\\') then .error .port
    else .ok (if port = defaultPort? scheme then none else port, rest)
  | rest => .ok (none, rest)

/-- A path after an authority. Special schemes have one in any case. -/
def pathAfterHost (special : Bool) (s : List Char) : List String :=
  match s with
  | [] => if special then [""] else []
  | c :: r => follow false [] (splitPath special (if isSlash special c then r else c :: r))

/-- What follows `//`. -/
def readAuthority [Idna] (scheme : String) (p : Parts) (s : List Char) : Except UrlError Url := do
  let special := isSpecial scheme
  let authority := s.takeWhile fun c => !isSlash special c
  let path := s.dropWhile fun c => !isSlash special c
  let (credentials, place) := (cutCredentials authority).getD ([], authority)
  if authority.head? = some '@' ∧ place = [] ∧ credentials = []
      ∧ !(path.isEmpty && p.endsHere) then
    throw .emptyHost
  let (user, pass) := (cut? ':' credentials).getD (credentials, [])
  let username := encode keepsInCredentials user
  let password := encode keepsInCredentials pass
  let (name, rest) := spanHost false place
  if name = [] ∧ (special ∨ rest ≠ [] ∨ username ≠ "" ∨ password ≠ "") then throw .emptyHost
  let host ← if special then Host.ofSpecial name else Host.ofOpaque name
  let (port, rest) ← readPort scheme rest
  return attach p ⟨scheme, username, password, some host, port,
    .segments (pathAfterHost special (rest ++ path)), none, none⟩

/-- The host of a `file` URL and the path after it. -/
def readFileHost [Idna] (s : List Char) : Except UrlError (Host × List Char) :=
  let name := s.takeWhile fun c => !isSlash true c
  let path := s.dropWhile fun c => !isSlash true c
  if name = [] ∨ isDrive name then .ok (.empty, s)
  else do
    let host ← Host.ofSpecial name
    return (if host = .domain "localhost" then .empty else host, path)

/-- What follows `file:`. A drive at the front of the path takes the host's place, and
empty segments there are dropped. -/
def readFile [Idna] (p : Parts) (s : List Char) : Except UrlError Url := do
  let (host, path) ← match s with
    | c :: d :: r => if isSlash true c && isSlash true d then readFileHost r else .ok (.empty, s)
    | _ => .ok (.empty, s)
  let segments := splitPath true (path.dropWhile (isSlash true))
  let host := if (segments.head?.map isDrive).getD false then .empty else host
  let parts := (follow true [] segments).dropWhile (· == "")
  return attach p ⟨"file", "", "", some host, none,
    .segments (if parts.isEmpty then [""] else parts), none, none⟩

/-- What follows the colon of a scheme that is not special. -/
def readOther [Idna] (scheme : String) (p : Parts) (s : List Char) : Except UrlError Url :=
  match s with
  | '/' :: '/' :: r => readAuthority scheme p r
  | '/' :: r =>
    .ok (attach p ⟨scheme, "", "", none, none, .segments (follow false [] (splitPath false r)),
      none, none⟩)
  | r =>
    .ok (attach p ⟨scheme, "", "", none, none, .opaquePath (encode isPrintable r), none, none⟩)

/-- What follows the colon of a scheme. -/
def readAfterScheme [Idna] (scheme : String) (p : Parts) (s : List Char) : Except UrlError Url :=
  if scheme = "file" then readFile p s
  else if isSpecial scheme then readAuthority scheme p (s.dropWhile (isSlash true))
  else readOther scheme p s

def parse [Idna] (s : String) : Except UrlError Url :=
  let p := Parts.of (cleaned s)
  match readScheme? p.main with
  | some (scheme, rest) => readAfterScheme scheme p rest
  | none => .error .relative

end CurlCode.Url

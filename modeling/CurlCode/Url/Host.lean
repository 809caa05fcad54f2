import CurlCode.Text.Percent
import CurlCode.Url.Address
import CurlCode.Url.Encoding
import CurlCode.Url.Error

/-!
Hosts. In a special scheme a host is a domain, in lower case and with its escapes
decoded, or an address; in any other scheme it is kept as it is. Domains are ASCII: one
that is not, or that has a label in the encoding for such domains, is mapped by the tables
of Unicode, which are left open (`Idna`).
-/
namespace CurlCode

open Text

/-- Internationalized domain names: their form in ASCII, `none` for text that is no domain. -/
class Idna where
  toAscii? : String → Option String

/-- No such name is known; a domain in plain ASCII does not need it. -/
instance (priority := low) Idna.ascii : Idna := ⟨fun _ => none⟩

inductive Host where
  /-- A host of no characters, as in `file:///x`. -/
  | empty
  | domain (name : String)
  | ipv4 (address : UInt32)
  | ipv6 (groups : List UInt16)
  deriving DecidableEq, Repr

namespace Host

def text : Host → String
  | .empty => ""
  | .domain name => name
  | .ipv4 a => Url.ipv4Text a
  | .ipv6 groups => "[" ++ Url.ipv6Text groups ++ "]"

/-- No host has this character, whatever the scheme. -/
def isForbidden (c : Char) : Bool :=
  c == '\x00' || c == '\t' || c == '\n' || c == '\r' || c == ' ' || c == '#' || c == '/'
    || c == ':' || c == '<' || c == '>' || c == '?' || c == '@' || c == '[' || c == '\\'
    || c == ']' || c == '^' || c == '|'

def isForbiddenInDomain (c : Char) : Bool :=
  isForbidden c || c.toNat < 0x20 || 0x7F ≤ c.toNat || c == '%'

/-- An address in brackets. -/
def ofBrackets (s : List Char) : Except UrlError Host :=
  if s.getLast? = some ']' then
    match Url.ipv6? s.tail.dropLast with
    | some groups => .ok (.ipv6 groups)
    | none => .error .ipv6
  else .error .ipv6

/-- A label that stands for one outside ASCII. -/
def isEncodedLabel (label : List Char) : Bool :=
  (label.take 4).map Char.toLower == ['x', 'n', '-', '-']

/-- All characters and labels of a domain stand for themselves. -/
def isPlainDomain (s : List Char) : Bool :=
  s.all (·.toNat < 0x80) && !(pieces '.' s).any isEncodedLabel

/-- A domain in ASCII and in lower case. -/
def domain? [Idna] (s : String) : Option (List Char) :=
  if isPlainDomain s.toList then
    let name := s.toList.map Char.toLower
    if name.any isForbiddenInDomain then none else some name
  else (Idna.toAscii? s).map String.toList

/-- The host of a special scheme. -/
def ofSpecial [Idna] (s : List Char) : Except UrlError Host :=
  if s.head? = some '[' then ofBrackets s
  else
    match (ofUtf8? (percentDecode (utf8 (String.ofList s)))).bind domain? with
    | none => .error .domain
    | some name =>
      if name.isEmpty then .error .emptyHost
      else if Url.endsInNumber name then
        match Url.ipv4? name with
        | some a => .ok (.ipv4 a)
        | none => .error .ipv4
      else .ok (.domain (String.ofList name))

/-- The host of any other scheme. -/
def ofOpaque (s : List Char) : Except UrlError Host :=
  if s.head? = some '[' then ofBrackets s
  else if s.any isForbidden then .error .domainCharacter
  else if s.isEmpty then .ok .empty
  else .ok (.domain (Url.encode Url.isPrintable s))

end Host

end CurlCode

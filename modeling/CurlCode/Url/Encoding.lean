import CurlCode.Text.Percent

/-!
The characters that each part of a URL keeps. All others, and all outside ASCII, are
percent-encoded; an escape that is there already stays, since `%` is kept everywhere.
-/
namespace CurlCode.Url

open Text

/-- ASCII without the control characters. -/
def isPrintable (c : Char) : Bool := 0x20 ≤ c.toNat && c.toNat ≤ 0x7E

def keepsInFragment (c : Char) : Bool :=
  isPrintable c && !(c == ' ' || c == '"' || c == '<' || c == '>' || c == '\x60')

def keepsInQuery (c : Char) : Bool :=
  isPrintable c && !(c == ' ' || c == '"' || c == '#' || c == '<' || c == '>')

/-- The query of a special scheme. -/
def keepsInSpecialQuery (c : Char) : Bool := keepsInQuery c && c != '\''

def keepsInPath (c : Char) : Bool :=
  keepsInFragment c && !(c == '#' || c == '?' || c == '\x7b' || c == '\x7d')

def keepsInCredentials (c : Char) : Bool :=
  keepsInPath c && !(c == '/' || c == ':' || c == ';' || c == '=' || c == '@' || c == '['
    || c == '\\' || c == ']' || c == '^' || c == '|')

def encode (keep : Char → Bool) (s : List Char) : String :=
  percentEncode keep (String.ofList s)

end CurlCode.Url

import CurlCode.Text.Ascii

/-!
String literals. A literal stands between two marks; inside it a backslash protects the
next character, and nothing else ends it but the mark.
-/
namespace CurlCode

open Text

/-- How a language writes a string literal. -/
inductive Quoting where
  /-- `"…"` with `\u0007` for a control character. -/
  | double
  /-- `"…"` with a control character as `\u` and its digits in braces. -/
  | braced
  /-- `'…'`, where only the mark and the backslash are escaped. -/
  | single
  /-- JSON: `"…"` with the control characters below U+0020 escaped. -/
  | json
  deriving DecidableEq, Repr

namespace Quoting

def mark : Quoting → Char
  | .single => '\''
  | _ => '"'

/-- The control characters: U+0000 to U+001F and U+007F to U+009F. -/
def isControl (c : Char) : Bool := c.toNat < 0x20 || (0x7F ≤ c.toNat && c.toNat ≤ 0x9F)

def escapeDouble (control : Nat → List Char) (c : Char) : List Char :=
  if c = '\\' then ['\\', '\\']
  else if c = '"' then ['\\', '"']
  else if c = '\n' then ['\\', 'n']
  else if c = '\r' then ['\\', 'r']
  else if c = '\t' then ['\\', 't']
  else if isControl c then control c.toNat
  else [c]

def escapeSingle (c : Char) : List Char :=
  if c = '\\' ∨ c = '\'' then ['\\', c] else [c]

def escapeJson (c : Char) : List Char :=
  if c = '\\' then ['\\', '\\']
  else if c = '"' then ['\\', '"']
  else if c = '\x08' then ['\\', 'b']
  else if c = '\x0C' then ['\\', 'f']
  else if c = '\n' then ['\\', 'n']
  else if c = '\r' then ['\\', 'r']
  else if c = '\t' then ['\\', 't']
  else if c.toNat < 0x20 then '\\' :: 'u' :: hexPadded 4 c.toNat
  else [c]

def escape : Quoting → Char → List Char
  | .double => escapeDouble fun n => '\\' :: 'u' :: hexPadded 4 n
  | .braced => escapeDouble fun n => '\\' :: 'u' :: '\x7b' :: hex n ++ ['\x7d']
  | .single => escapeSingle
  | .json => escapeJson

/-- The characters of the literal for a text. -/
def literal (q : Quoting) (s : List Char) : List Char :=
  q.mark :: s.flatMap q.escape ++ [q.mark]

def quote (q : Quoting) (s : String) : String := String.ofList (q.literal s.toList)

end Quoting

end CurlCode

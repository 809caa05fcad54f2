import CurlCode.Text.Percent
import CurlCode.Text.Pieces

/-!
Form data, `name=value` joined by `&`. The encoder writes a space as `%20`; the decoder
also takes `+` for one. Encoded text is free of `&`, `=` and `+`.
-/
namespace CurlCode

open Text

structure Field where
  name : String
  value : String
  deriving DecidableEq, Repr

namespace Form

/-- The characters that need no escape in form data. -/
def isPlain (c : Char) : Bool :=
  c.isAlphanum || c == '*' || c == '-' || c == '.' || c == '_'

def encodeText (s : String) : String := percentEncode isPlain s

/-- An argument `name=content` or `content` with the content encoded; the name, when there
is one, is kept as it is. -/
def encodeArgument (argument : String) : String :=
  match cut? '=' argument.toList with
  | none => encodeText argument
  | some ([], content) => encodeText (String.ofList content)
  | some (name, content) =>
    String.ofList name ++ "=" ++ encodeText (String.ofList content)

/-- A name or value as it was before encoding; `none` if its bytes are no UTF-8. -/
def decodeText? (s : List Char) : Option String :=
  let spaced := s.map fun c => if c = '+' then ' ' else c
  ofUtf8? (percentDecode (utf8 (String.ofList spaced)))

/-- A piece without `=` is a name with an empty value. -/
def decodeField? (piece : List Char) : Option Field := do
  let (name, value) := (cut? '=' piece).getD (piece, [])
  return ⟨← decodeText? name, ← decodeText? value⟩

/-- The fields in order. Empty pieces are dropped; one field that is no UTF-8 spoils all. -/
def decode? (s : String) : Option (List Field) :=
  ((pieces '&' s.toList).filter (· ≠ [])).mapM decodeField?

end Form

end CurlCode

import CurlCode.Command.Walk
import CurlCode.Shell.Words

/-!
A `curl` command line as the request it describes and the tokens left out of it. The
limits are checked where they bite: the length before anything is read, the number of
headers at the header that exceeds it.
-/
namespace CurlCode

open Text

structure Command where
  request : Request
  /-- Unsupported options with their values, and stray arguments, in order. -/
  ignored : List String
  deriving DecidableEq, Repr

namespace Command

def ofTokens (limits : Limits) : List String → Except CommandError Command
  | [] => .error .empty
  | name :: arguments =>
    if sameLetters name "curl" then do
      let w ← (Occurrence.ofTokens arguments).foldlM (Walk.read limits.headers) .start
      return ⟨← w.finish, w.ignored.toList⟩
    else .error (.notCurl name)

def parse (limits : Limits) (text : String) : Except CommandError Command :=
  if limits.inputBytes < text.utf8ByteSize then .error (.tooLong limits.inputBytes)
  else ofTokens limits (Shell.words text)

end Command

end CurlCode

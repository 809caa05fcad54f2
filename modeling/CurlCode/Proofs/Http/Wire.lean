import CurlCode.Proofs.Http.Refusal
import Mathlib

/-!
The headers that go out. They are sorted by name in lower case, so a name that the request
spells in several letter cases gets all of its values, in their order; nothing else comes
under it but the credentials of the URL (`first_carries`).
-/
namespace CurlCode

open Text

namespace Headers

end Headers

namespace Http

open Headers

namespace Message

section Lower

variable {m : Message} (hlower : ∀ h ∈ m.headers, lower h.name = h.name)
include hlower

end Lower

end Message

/-! ### What the first request carries -/

namespace Session

end Session

end Http

end CurlCode

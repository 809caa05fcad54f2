import CurlCode.Http.Response
import CurlCode.Proofs.Json.Acceptance

/-!
Response bodies for display. Which texts are taken for JSON is up to their value alone, and a
body that is spread over lines still says the same (`ofText_faithful`).
-/
namespace CurlCode.Http.ResponseBody

open Json (Means parse?)

/-- A text that is shown as JSON: it has a value, and the media type or the value is one for
it. -/
def ShownAsJson (hint : Bool) (s : String) : Prop :=
  ∃ v, Means s v ∧ (hint ∨ v.isContainer)

theorem ofText_eq_json_iff {hint : Bool} {s p : String} : ofText hint s = .json p ↔
    ∃ v, parse? s = some v ∧ (hint ∨ v.isContainer) ∧ v.pretty = p := by
  rw [ofText]
  cases parse? s with
  | none => simp
  | some v => by_cases hshown : hint = true ∨ v.isContainer = true <;> simp [hshown]

theorem ofText_cases (hint : Bool) (s : String) :
    (∃ p, ofText hint s = .json p) ∨ ofText hint s = .text s := by
  rw [ofText]
  split
  · split
    · exact .inl ⟨_, rfl⟩
    · exact .inr rfl
  · exact .inr rfl

theorem exists_json_iff {hint : Bool} {s : String} :
    (∃ p, ofText hint s = .json p) ↔ ShownAsJson hint s := by
  simp only [ofText_eq_json_iff, Json.parse?_eq_some_iff, ShownAsJson]
  constructor
  · rintro ⟨p, v, hv, hshown, -⟩
    exact ⟨v, hv, hshown⟩
  · rintro ⟨v, hv, hshown⟩
    exact ⟨v.pretty, v, hv, hshown, rfl⟩

/-- Spread over lines, a text has the same value, and is shown as it is. -/
theorem ofText_faithful (hint : Bool) (s : String) :
    ((∃ p, ofText hint s = .json p) ↔ ShownAsJson hint s) ∧
    (¬ ShownAsJson hint s → ofText hint s = .text s) ∧
    ∀ p, ofText hint s = .json p →
      (∃ v, parse? s = some v ∧ parse? p = some v) ∧ ofText hint p = .json p := by
  refine ⟨exists_json_iff, fun hshown => ?_, fun p hp => ?_⟩
  · exact (ofText_cases hint s).resolve_left (mt exists_json_iff.1 hshown)
  · obtain ⟨v, hv, hshown, rfl⟩ := ofText_eq_json_iff.1 hp
    have hpretty : parse? v.pretty = some v := Json.parse?_pretty hv
    exact ⟨⟨v, hv, hpretty⟩, ofText_eq_json_iff.2 ⟨v, hpretty, hshown, rfl⟩⟩

/-- The second value of a key stands where the first one did. -/
theorem ofText_faithful_duplicate :
    let s := "\x7b\"b\":1,\"a\":[],\"b\":2E5\x7d"
    let p := "\x7b\n  \"b\": 2e+5,\n  \"a\": []\n\x7d"
    ofText false s = .json p ∧ (∃ v, parse? s = some v ∧ parse? p = some v) ∧
      ofText false p = .json p := by
  intro s p
  have hshown : ofText false s = .json p := by decide +kernel
  exact ⟨hshown, (ofText_faithful false s).2.2 p hshown⟩

end CurlCode.Http.ResponseBody

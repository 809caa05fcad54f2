import CurlCode.Proofs.Command.Insertions
import CurlCode.Proofs.Shell.Vacant

/-!
When a command line is refused, and why (`parse_outcome`). The reasons are tried in a
fixed order: the length, the words, the command, the number of header names, the URL.
-/
namespace CurlCode

open Text

/-- The names under which headers are inserted, each once. -/
def insertedNames (os : List Occurrence) : List String := (Headers.names (insertions os)).eraseDups

theorem Walk.length_headers_after (os : List Occurrence) :
    (after os).headers.length = (insertedNames os).length := by
  rw [← Headers.length_names, (records_after os).names, insertedNames]

namespace Command

theorem parse_of_fits {limits : Limits} {text : String}
    (h : text.utf8ByteSize ≤ limits.inputBytes) :
    parse limits text = ofTokens limits (Shell.words text) := if_neg (Nat.not_lt.2 h)

/-- Where the command and its headers are in order, only the URL can be missing. -/
theorem elim_eq_error {c : Option Command} {e : CommandError} :
    c.elim (.error .missingUrl) .ok = (.error e : Except CommandError Command) ↔
      c = none ∧ .missingUrl = e := by
  cases c <;> simp

theorem ofTokens_ne_tooLong (limits : Limits) (tokens : List String) (n : Nat) :
    ofTokens limits tokens ≠ .error (.tooLong n) := by
  cases tokens with
  | nil => simp [ofTokens]
  | cons name arguments =>
    rw [ofTokens_cons]
    split_ifs <;> simp [elim_eq_error]

theorem tooLong_iff (limits : Limits) (text : String) :
    parse limits text = .error (.tooLong limits.inputBytes) ↔
      limits.inputBytes < text.utf8ByteSize := by
  constructor
  · intro h
    by_contra hfits
    rw [parse_of_fits (Nat.not_lt.1 hfits)] at h
    exact ofTokens_ne_tooLong _ _ _ h
  · exact fun h => if_pos h

theorem empty_iff (limits : Limits) (tokens : List String) :
    ofTokens limits tokens = .error .empty ↔ tokens = [] := by
  cases tokens with
  | nil => simp [ofTokens]
  | cons name arguments =>
    rw [ofTokens_cons]
    split_ifs <;> simp [elim_eq_error]

theorem notCurl_iff (limits : Limits) (name : String) (arguments : List String) :
    ofTokens limits (name :: arguments) = .error (.notCurl name) ↔ ¬ sameLetters name "curl" := by
  rw [ofTokens_cons]
  split_ifs with hcurl <;> simp [elim_eq_error, hcurl]

theorem tooManyHeaders_iff {limits : Limits} {name : String} (hcurl : sameLetters name "curl")
    (arguments : List String) :
    ofTokens limits (name :: arguments) = .error (.tooManyHeaders limits.headers) ↔
      limits.headers < (insertedNames (Occurrence.ofTokens arguments)).length := by
  rw [ofTokens_cons, if_pos hcurl, Walk.length_headers_after]
  split_ifs with hroom
  · simp [elim_eq_error, hroom]
  · simpa using hroom

/-- Within the limits, they make no difference. -/
theorem ofTokens_of_room {limits : Limits} {name : String} (hcurl : sameLetters name "curl")
    {arguments : List String}
    (hroom : (insertedNames (Occurrence.ofTokens arguments)).length ≤ limits.headers) :
    ofTokens limits (name :: arguments) =
      (ofOccurrences? (Occurrence.ofTokens arguments)).elim (.error .missingUrl) .ok := by
  rw [ofTokens_cons, if_pos hcurl, Walk.length_headers_after, if_pos hroom]

theorem missingUrl_iff {limits : Limits} {name : String} (hcurl : sameLetters name "curl")
    {arguments : List String}
    (hroom : (insertedNames (Occurrence.ofTokens arguments)).length ≤ limits.headers) :
    ofTokens limits (name :: arguments) = .error .missingUrl ↔
      baseUrl? (Occurrence.ofTokens arguments) = none := by
  rw [ofTokens_of_room hcurl hroom, elim_eq_error, ofOccurrences?, Option.map_eq_none_iff]
  exact and_iff_left rfl

/-- Exactly when a command line is refused, reason by reason; if there is none, it is accepted,
and greater limits change nothing. -/
theorem parse_outcome (limits : Limits) (text : String) :
    (parse limits text = .error (.tooLong limits.inputBytes) ↔
      limits.inputBytes < text.utf8ByteSize) ∧
    (text.utf8ByteSize ≤ limits.inputBytes →
      (parse limits text = .error .empty ↔ Shell.Vacant text) ∧
      (¬ Shell.Vacant text → ∃ name arguments, Shell.words text = name :: arguments ∧
        (parse limits text = .error (.notCurl name) ↔ ¬ sameLetters name "curl") ∧
        (sameLetters name "curl" →
          (parse limits text = .error (.tooManyHeaders limits.headers) ↔
            limits.headers < (insertedNames (Occurrence.ofTokens arguments)).length) ∧
          ((insertedNames (Occurrence.ofTokens arguments)).length ≤ limits.headers →
            (parse limits text = .error .missingUrl ↔
              baseUrl? (Occurrence.ofTokens arguments) = none) ∧
            (baseUrl? (Occurrence.ofTokens arguments) ≠ none → ∃ c, ∀ limits' : Limits,
              limits.inputBytes ≤ limits'.inputBytes → limits.headers ≤ limits'.headers →
                parse limits' text = .ok c))))) := by
  refine ⟨tooLong_iff limits text, fun hfits => ?_⟩
  rw [parse_of_fits hfits]
  refine ⟨?_, fun hvacant => ?_⟩
  · rw [empty_iff, Shell.words_eq_nil_iff]
  · rw [← Shell.words_eq_nil_iff] at hvacant
    obtain ⟨name, arguments, hwords⟩ := List.exists_cons_of_ne_nil hvacant
    rw [hwords]
    refine ⟨name, arguments, rfl, notCurl_iff limits name arguments, fun hcurl => ?_⟩
    refine ⟨tooManyHeaders_iff hcurl arguments, fun hroom => ?_⟩
    refine ⟨missingUrl_iff hcurl hroom, fun hurl => ?_⟩
    obtain ⟨url, hurl⟩ := Option.ne_none_iff_exists'.1 hurl
    obtain ⟨c, hc⟩ : ∃ c, ofOccurrences? (Occurrence.ofTokens arguments) = some c := by
      rw [ofOccurrences?, hurl]
      exact ⟨_, rfl⟩
    refine ⟨c, fun limits' hinput hheaders => ?_⟩
    rw [parse_of_fits (Nat.le_trans hfits hinput), hwords,
      ofTokens_of_room hcurl (Nat.le_trans hroom hheaders), hc]
    rfl

end Command

end CurlCode

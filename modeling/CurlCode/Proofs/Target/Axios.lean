import CurlCode.Proofs.Target.TextRecovery

/-!
What an `axios` program tells of its body. JSON values and raw text stand in one place, and
raw text is written as a JSON string is, so no program tells these two apart. All other
bodies are told apart (`emit_eq_iff`).
-/
namespace CurlCode.Axios

open Source Json

/-- What stands under `data`. -/
inductive Data where
  | value (v : Json)
  | fields (fs : List Field)

/-- Raw text is a string like any other. -/
def Data.ofPayload : Payload → Data
  | .json v => .value v
  | .raw text => .value (.string text)
  | .form fs => .fields fs

def dataSource : Option Data → Source
  | none => []
  | some (.value v) => .concat [["    data: "], v.source JavaScript.dialect 2, [",\n"]]
  | some (.fields fs) =>
    .concat [["    data: new URLSearchParams([\n"],
      .forEach fs fun f => ["      [", .literal f.name, ", ", .literal f.value, "],\n"],
      ["    ]),\n"]]

theorem body_eq (r : Request) : body r = dataSource (r.payload?.map Data.ofPayload) := by
  rw [body]
  rcases r.payload? with _ | (v | fs | text) <;> rfl

theorem clash_starts :
    ∀ t ∈ JavaScript.dialect.starts, Clash (t.map some) (front "ne") := by
  decide

/-- No value begins like the word `new`; of the words of JSON `null` comes closest. -/
theorem not_begins_of_starts {k ls : List Lexeme} (h : Starts JavaScript.dialect k ls) :
    ¬ Begins (front "ne") ls := by
  cases h with
  | literal s => exact (begins_literal (some s) k).not_of_clash (by decide)
  | @numeral c hc ls =>
    rintro ⟨rest, hrest⟩
    obtain ⟨hhead, -⟩ := List.cons.inj hrest
    obtain rfl : 'n' = c := Option.some.inj hhead
    exact absurd hc (by decide)
  | @text t ht ls =>
    have hbegins : Begins (t.map some) (t.map .plain ++ ls) := ⟨gaps ls, by simp [gaps]⟩
    exact hbegins.not_of_clash (clash_starts t ht)

theorem value_cancel {v w : Json} (h : lexemes .double (dataSource (some (.value v))) =
    lexemes .double (dataSource (some (.value w)))) : v = w := by
  have hends := congrArg (· ++ ([] : List Lexeme)) h
  exact (source_between JavaScript.readable_dialect (by decide) (by decide) hends).1

theorem fields_cancel {fs gs : List Field} (h : lexemes .double (dataSource (some (.fields fs))) =
    lexemes .double (dataSource (some (.fields gs)))) : fs = gs := by
  have hends := congrArg (· ++ ([] : List Lexeme)) h
  exact (forEach_between (selfDelimiting_field _ _ _) (by decide) (by decide) (by decide) hends).1

theorem value_ne_fields (v : Json) (fs : List Field) :
    lexemes .double (dataSource (some (.value v))) ≠
      lexemes .double (dataSource (some (.fields fs))) := by
  intro h
  have hfields : Begins (front "    data: " ++ front "ne")
      (lexemes .double (dataSource (some (.fields fs)))) :=
    (begins_text (by decide) (by decide)).append _
  rw [← h, dataSource, concat_cons, concat_cons, lexemes_append, lexemes_append, lexemes_cons,
    lexemes_nil, List.append_nil, Fragment.lexemes_text (by decide), Begins, gaps_append,
    gaps_plain] at hfields
  have hvalue : Begins (front "ne") _ := (List.prefix_append_right_inj _).1 hfields
  exact not_begins_of_starts (starts_source JavaScript.readable_dialect v 2 _) hvalue

theorem dataSource_ne_nil (d : Data) : lexemes .double (dataSource (some d)) ≠ [] := by
  have hbegins : Begins (front "    data: ") (lexemes .double (dataSource (some d))) := by
    cases d
    · exact (begins_text (by decide) (by decide)).append _
    · exact (begins_text (by decide) (by decide)).append _
  intro h
  rw [h] at hbegins
  exact absurd hbegins (by decide)

/-- This part of a program says what stands under `data`, if anything does. -/
theorem dataSource_injective {d d' : Option Data}
    (h : lexemes .double (dataSource d) = lexemes .double (dataSource d')) : d = d' := by
  rcases d with _ | (v | fs) <;> rcases d' with _ | (w | gs)
  · rfl
  · exact absurd h.symm (dataSource_ne_nil _)
  · exact absurd h.symm (dataSource_ne_nil _)
  · exact absurd h (dataSource_ne_nil _)
  · rw [value_cancel h]
  · exact absurd h (value_ne_fields v gs)
  · exact absurd h (dataSource_ne_nil _)
  · exact absurd h.symm (value_ne_fields w fs)
  · rw [fields_cancel h]

/-- Only a JSON string and raw text stand for the same data. -/
theorem map_ofPayload_eq_iff {p q : Option Payload} :
    p.map Data.ofPayload = q.map Data.ofPayload ↔ p = q ∨ ∃ s,
      (p = some (.json (.string s)) ∧ q = some (.raw s)) ∨
      (p = some (.raw s) ∧ q = some (.json (.string s))) := by
  rcases p with _ | (v | fs | text) <;> rcases q with _ | (w | gs | text') <;>
    simp [Data.ofPayload, eq_comm]

theorem emit_eq_iff_data {r r' : Request} (hmethod : r.method = r'.method)
    (hurl : r.url = r'.url) (hheaders : r.headers = r'.headers) :
    Language.axios.target.emit r = Language.axios.target.emit r' ↔
      r.payload?.map Data.ofPayload = r'.payload?.map Data.ofPayload := by
  have hmethods : method r = method r' := by
    rw [method, method, Request.standardMethod?, Request.standardMethod?, hmethod]
  have hlists : headers r = headers r' := by rw [headers, headers, hheaders]
  constructor
  · intro h
    have hlexemes : Language.axios.lexemes r = Language.axios.lexemes r' := by
      rw [Language.lexemes, Language.lexemes, h]
    rw [Language.lexemes_eq, Language.lexemes_eq] at hlexemes
    simp only [Language.source, Language.quoting, source, hmethods, hurl, hlists, body_eq,
      concat_cons, lexemes_append, List.append_cancel_left_eq, List.append_cancel_right_eq]
      at hlexemes
    exact dataSource_injective hlexemes
  · intro h
    have hsource : Language.axios.source r = Language.axios.source r' := by
      rw [Language.source, source, source, hmethods, hurl, hlists, body_eq, body_eq, h]
    rw [Language.emit_target, Language.emit_target, hsource]

/-- A JSON-typed body is a value if it parses, and else raw text. -/
theorem payload?_of_json {r : Request} {text : String} (hbody : r.body = some text)
    (hformat : r.facets.bodyFormat = .json) :
    r.payload? = some ((Json.parse? text).elim (.raw text) .json) := by
  rw [Request.payload?, hbody, hformat, Option.map_some, Payload.ofBody]
  cases Json.parse? text <;> rfl

/-- Of requests that agree in all but their bodies, the programs are the same if and only if the
bodies are, or one is a JSON string and the other the raw text of its characters. So a value that
is no string is never taken for a text. -/
theorem emit_eq_iff {r r' : Request} (hmethod : r.method = r'.method) (hurl : r.url = r'.url)
    (hheaders : r.headers = r'.headers) :
    (Language.axios.target.emit r = Language.axios.target.emit r' ↔ r.payload? = r'.payload? ∨ ∃ s,
      (r.payload? = some (.json (.string s)) ∧ r'.payload? = some (.raw s)) ∨
      (r.payload? = some (.raw s) ∧ r'.payload? = some (.json (.string s)))) ∧
    ∀ v text, r.payload? = some (.json v) → r'.payload? = some (.raw text) →
      (Language.axios.target.emit r = Language.axios.target.emit r' ↔ v = .string text) := by
  rw [emit_eq_iff_data hmethod hurl hheaders]
  refine ⟨map_ofPayload_eq_iff, fun v text hv htext => ?_⟩
  rw [hv, htext]
  simp [Data.ofPayload]

/-- The value `null` and the text `nul` have different programs. -/
theorem emit_eq_iff_null :
    let r : Request :=
      ⟨"put", "http://x.test/", [⟨"content-type", "application/json"⟩], some "null"⟩
    let r' : Request := { r with body := some "nul" }
    r.payload? = some (.json .null) ∧ r'.payload? = some (.raw "nul") ∧
      Language.axios.target.emit r ≠ Language.axios.target.emit r' := by
  intro r r'
  have hnull : Json.parse? "null" = some .null := by cbv
  have hnul : Json.parse? "nul" = none := by cbv
  have hjson : r.payload? = some (.json .null) := by
    rw [payload?_of_json rfl (by decide +kernel), hnull, Option.elim_some]
  have hraw : r'.payload? = some (.raw "nul") := by
    rw [payload?_of_json rfl (by decide +kernel), hnul, Option.elim_none]
  have hiff := (@emit_eq_iff r r' rfl rfl rfl).2 .null "nul" hjson hraw
  exact ⟨hjson, hraw, fun h => by simpa using hiff.1 h⟩

/-- Text that is no JSON is written as the JSON string of its characters is. -/
theorem emit_conflates :
    let r : Request :=
      ⟨"POST", "http://x.test/", [⟨"Content-Type", "application/json"⟩], some "abc"⟩
    let r' : Request := { r with body := some "\"abc\"" }
    r.payload? = some (.raw "abc") ∧ r'.payload? = some (.json (.string "abc")) ∧
      Language.axios.target.emit r = Language.axios.target.emit r' ∧ r.payload? ≠ r'.payload? := by
  intro r r'
  have habc : Json.parse? "abc" = none := by cbv
  have hquoted : Json.parse? "\"abc\"" = some (.string "abc") := by cbv
  have hraw : r.payload? = some (.raw "abc") := by
    rw [payload?_of_json rfl (by decide +kernel), habc, Option.elim_none]
  have hjson : r'.payload? = some (.json (.string "abc")) := by
    rw [payload?_of_json rfl (by decide +kernel), hquoted, Option.elim_some]
  have hdata : r.payload?.map Data.ofPayload = r'.payload?.map Data.ofPayload := by
    rw [hraw, hjson]
    rfl
  refine ⟨hraw, hjson, (@emit_eq_iff_data r r' rfl rfl rfl).2 hdata, ?_⟩
  rw [hraw, hjson]
  simp

end CurlCode.Axios

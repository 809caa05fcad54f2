import CurlCode.Proofs.Json.Strict
import CurlCode.Report

/-!
A command printed as JSON keeps all that is in it. The value is read back member by member
(`ofJson?_toJson`), and both layouts are JSON texts of that value (`jsonText_faithful`).
-/
namespace CurlCode

namespace Json

def member? (key : String) : Json → Option Json
  | .object ms => (ms.find? fun m => m.1 = key).map Prod.snd
  | _ => none

def string? : Json → Option String
  | .string s => some s
  | _ => none

def bool? : Json → Option Bool
  | .bool b => some b
  | _ => none

end Json

namespace Command

def headersOfJson? : Json → Option Headers
  | .object ms => ms.mapM fun m => m.2.string?.map (Header.mk m.1)
  | _ => none

def facetsOfJson? (v : Json) : Option Facets := do
  return ⟨← (← v.member? "is_json").bool?, ← (← v.member? "is_form").bool?,
    ← (← v.member? "is_multipart").bool?⟩

/-- No body without the member; an empty string is an empty body. -/
def bodyOfJson? (v : Json) : Option (Option String) :=
  match v.member? "body" with
  | some b => b.string?.map some
  | none => some none

def requestOfJson? (v : Json) : Option Request := do
  return ⟨← (← v.member? "method").string?, ← (← v.member? "url").string?,
    ← headersOfJson? (← v.member? "headers"), ← bodyOfJson? v⟩

def ignoredOfJson? : Json → Option (List String)
  | .array vs => vs.mapM Json.string?
  | _ => none

/-- A command and the facets that are shown with it. -/
def ofJson? (v : Json) : Option (Command × Facets) := do
  let d ← v.member? "descriptor"
  return (⟨← requestOfJson? d, ← ignoredOfJson? (← v.member? "ignored")⟩,
    ← facetsOfJson? (← d.member? "facets"))

theorem headersOfJson?_headersJson (hs : Headers) :
    headersOfJson? (headersJson hs) = some hs := by
  induction hs with
  | nil => rfl
  | cons h hs ih =>
    simp only [headersJson, headersOfJson?] at ih
    simp only [headersJson, headersOfJson?, List.map_cons, List.mapM_cons, ih]
    rfl

theorem ignoredOfJson?_map (tokens : List String) :
    ignoredOfJson? (.array (tokens.map .string)) = some tokens := by
  induction tokens with
  | nil => rfl
  | cons t tokens ih =>
    simp only [ignoredOfJson?] at ih
    simp [ignoredOfJson?, Json.string?, ih]

theorem requestOfJson?_requestJson (r : Request) : requestOfJson? (requestJson r) = some r := by
  obtain ⟨method, url, headers, body⟩ := r
  have hheaders := headersOfJson?_headersJson headers
  cases body with
  | none =>
    simp [requestOfJson?, requestJson, bodyOfJson?, Json.member?, Json.string?, hheaders]
  | some body =>
    simp [requestOfJson?, requestJson, bodyOfJson?, Json.member?, Json.string?, hheaders]

theorem member?_facets (r : Request) :
    (requestJson r).member? "facets" = some (facetsJson r.facets) := by
  cases hbody : r.body <;> simp [requestJson, Json.member?, hbody]

theorem facetsOfJson?_facetsJson (f : Facets) : facetsOfJson? (facetsJson f) = some f := by
  simp [facetsOfJson?, facetsJson, Json.member?, Json.bool?]

theorem ofJson?_toJson (c : Command) : ofJson? c.toJson = some (c, c.request.facets) := by
  have hrequest : c.toJson.member? "descriptor" = some (requestJson c.request) := by
    simp [toJson, Json.member?]
  have hignored : c.toJson.member? "ignored" = some (.array (c.ignored.map .string)) := by
    simp [toJson, Json.member?]
  simp [ofJson?, hrequest, hignored, member?_facets, requestOfJson?_requestJson,
    ignoredOfJson?_map, facetsOfJson?_facetsJson]

theorem spells_jsonText (c : Command) (pretty : Bool) :
    Json.Spells (c.jsonText pretty) c.toJson := by
  cases pretty with
  | true => exact Json.spells_pretty c.toJson
  | false => exact Json.spells_compact c.toJson

/-- Both layouts are texts of one JSON value, which the strict reader gives back, and all of
the command and its facets can be read off that value. So different commands are never
printed the same. -/
theorem jsonText_faithful :
    (∀ s v, Json.strict? s = some v ↔ Json.Spells s v) ∧
    (∀ c : Command, ∃ v, Json.strict? (c.jsonText true) = some v ∧
      Json.strict? (c.jsonText false) = some v ∧ ofJson? v = some (c, c.request.facets)) ∧
    ∀ (c c' : Command) (pretty pretty' : Bool),
      c.jsonText pretty = c'.jsonText pretty' → c = c' := by
  have hread (c : Command) (pretty : Bool) :
      Json.strict? (c.jsonText pretty) = some c.toJson :=
    (Json.strict?_eq_some_iff _ _).2 (spells_jsonText c pretty)
  refine ⟨Json.strict?_eq_some_iff, ?_, ?_⟩
  · intro c
    exact ⟨c.toJson, hread c true, hread c false, ofJson?_toJson c⟩
  · intro c c' pretty pretty' heq
    have hvalue : c.toJson = c'.toJson := by
      have h := hread c pretty
      rw [heq, hread c' pretty'] at h
      exact (Option.some.inj h).symm
    have h := ofJson?_toJson c
    rw [hvalue, ofJson?_toJson c'] at h
    simp only [Option.some.injEq, Prod.mk.injEq] at h
    exact h.1.symm

end Command

end CurlCode

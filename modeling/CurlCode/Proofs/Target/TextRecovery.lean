import CurlCode.Proofs.Target.Recovery

/-!
What a program tells of its request, for the languages that write a form as a plain text,
and for those that write every body so. The text and the headers determine the payload.
-/
namespace CurlCode

open Source Json

theorem payload?_congr {r r' : Request} (hheaders : r.headers = r'.headers)
    (hbody : r.body = r'.body) : r.payload? = r'.payload? := by
  rw [Request.payload?, Request.payload?, Request.facets, Request.facets, hheaders, hbody]

/-! ### JSON or plain text -/

namespace Payload

def isJson : Payload → Bool
  | .json _ => true
  | .form _ | .raw _ => false

/-- `none` for no body. -/
def kinds : List (Option Bool) := [none, some true, some false]

theorem mem_kinds (k : Option Bool) : k ∈ kinds := by
  rcases k with _ | (_ | _) <;> decide

end Payload

/-- Whether the body is JSON, if there is one. -/
def Request.kind (r : Request) : Option Bool := r.payload?.map Payload.isJson

theorem kind_cases (r : Request) :
    (r.kind = none ∧ r.payload? = none ∧ r.body = none) ∨
    (∃ v, r.kind = some true ∧ r.payload? = some (.json v)) ∨
    ∃ p b, r.kind = some false ∧ r.payload? = some p ∧ p.isJson = false ∧ r.body = some b := by
  rcases payload_cases r with ⟨h, hb⟩ | ⟨v, b, h, -⟩ | ⟨fs, b, h, hb⟩ | ⟨t, h, hb⟩
  · exact .inl ⟨by rw [Request.kind, h]; rfl, h, hb⟩
  · exact .inr (.inl ⟨v, by rw [Request.kind, h]; rfl, h⟩)
  · exact .inr (.inr ⟨_, b, by rw [Request.kind, h]; rfl, h, rfl, hb⟩)
  · exact .inr (.inr ⟨_, t, by rw [Request.kind, h]; rfl, h, rfl, hb⟩)

/-- Requests of one kind. -/
theorem pair_cases {r r' : Request} (h : r.kind = r'.kind) :
    (r.payload? = none ∧ r'.payload? = none) ∨
    (∃ v w, r.payload? = some (.json v) ∧ r'.payload? = some (.json w)) ∨
    ∃ p p' b b', (r.payload? = some p ∧ p.isJson = false ∧ r.body = some b) ∧
      r'.payload? = some p' ∧ p'.isJson = false ∧ r'.body = some b' := by
  rcases kind_cases r with ⟨hk, hp, -⟩ | ⟨v, hk, hp⟩ | ⟨p, b, hk, hp⟩ <;>
    rcases kind_cases r' with ⟨hk', hp', -⟩ | ⟨w, hk', hp'⟩ | ⟨p', b', hk', hp'⟩ <;>
    rw [hk, hk'] at h
  · exact .inl ⟨hp, hp'⟩
  · cases h
  · cases h
  · cases h
  · exact .inr (.inl ⟨v, w, hp, hp'⟩)
  · cases h
  · cases h
  · cases h
  · exact .inr (.inr ⟨p, p', b, b', hp, hp'⟩)

/-- A body is left out, or it is JSON or a literal between texts. -/
structure TextLayout (q : Quoting) (d : Json.Dialect) (body : Request → Source) : Prop where
  readable : d.Readable q
  absent : ∀ r, r.payload? = none → body r = []
  json : JsonLayout q d body
  text : ∃ before after : Source, ∀ r p b, r.payload? = some p → p.isJson = false →
    r.body = some b → body r = before ++ .literal b :: after

theorem TextLayout.cancel {q : Quoting} {d : Json.Dialect} {body : Request → Source}
    (hl : TextLayout q d body) {r r' : Request} {k k' : List Lexeme} (hkind : r.kind = r'.kind)
    (h : lexemes q (body r) ++ k = lexemes q (body r') ++ k') :
    (r.headers = r'.headers → r.payload? = r'.payload?) ∧ k = k' := by
  rcases pair_cases hkind with ⟨hp, hp'⟩ | ⟨v, w, hp, hp'⟩ |
    ⟨p, p', b, b', ⟨hp, hj, hb⟩, hp', hj', hb'⟩
  · rw [hl.absent r hp, hl.absent r' hp'] at h
    exact ⟨fun _ => by rw [hp, hp'], h⟩
  · obtain ⟨hvw, hk⟩ := hl.json.cancel hl.readable hp hp' h
    exact ⟨fun _ => by rw [hp, hp', hvw], hk⟩
  · obtain ⟨before, after, hbody⟩ := hl.text
    rw [hbody r p b hp hj hb, hbody r' p' b' hp' hj' hb'] at h
    obtain ⟨hbb, hk⟩ : b = b' ∧ k = k' := by simpa using h
    exact ⟨fun hheaders => payload?_congr hheaders (by rw [hb, hb', hbb]), hk⟩

/-- A standard method is written as a text, and any other one as a literal between texts. -/
structure MethodLayout (q : Quoting) (tag : Option StandardMethod → List (Option Char))
    (method : Request → Source) : Prop where
  distinct : Distinct tag
  begins : ∀ r k, Begins (tag r.standardMethod?) (lexemes q (method r) ++ k)
  standard : ∃ write : StandardMethod → Source, ∀ r m, r.standardMethod? = some m →
    method r = write m
  other : ∃ before after : Source, ∀ r, r.standardMethod? = none →
    method r = before ++ .literal r.method :: after

theorem MethodLayout.cancel {q : Quoting} {tag : Option StandardMethod → List (Option Char)}
    {method : Request → Source} (hl : MethodLayout q tag method) {r r' : Request}
    {k k' : List Lexeme} (h : lexemes q (method r) ++ k = lexemes q (method r') ++ k') :
    r.canonicalMethod = r'.canonicalMethod ∧ k = k' := by
  have hstandard := eq_of_begins hl.distinct (hl.begins r k) (h ▸ hl.begins r' k')
  cases hm : r.standardMethod? with
  | some m =>
    obtain ⟨write, hwrite⟩ := hl.standard
    have hmethod := canonicalMethod_eq hstandard (by simp [hm])
    rw [hwrite r m hm, hwrite r' m (hstandard ▸ hm)] at h
    exact ⟨hmethod, List.append_cancel_left h⟩
  | none =>
    obtain ⟨before, after, hother⟩ := hl.other
    rw [hother r hm, hother r' (hstandard ▸ hm)] at h
    obtain ⟨hmethod, hk⟩ : r.method = r'.method ∧ k = k' := by simpa using h
    exact ⟨canonicalMethod_eq hstandard fun _ => hmethod, hk⟩

namespace Rust

theorem readable_dialect : dialect.Readable .braced := by
  constructor <;> decide

def bodyTag : Option Bool → List (Option Char)
  | none => front "        .send"
  | some true => front "        .body(serde"
  | some false => front "        .body(" ++ [none]

theorem distinct_bodyTag : Distinct bodyTag :=
  distinct_of_all Payload.mem_kinds (by decide)

theorem clash_header (k : Option Bool) : Clash (bodyTag k) (front "        .header(") := by
  rcases k with _ | (_ | _) <;> decide

theorem body_text {r : Request} {p : Payload} {b : String} (hp : r.payload? = some p)
    (hj : p.isJson = false) (hb : r.body = some b) :
    body r = [.text "        .body(", .literal b, .text ")\n"] := by
  cases p <;> simp_all [body, Payload.isJson]

theorem begins_body (r : Request) (k : List Lexeme) :
    Begins (bodyTag r.kind)
      (lexemes .braced (body r) ++
        (Fragment.lexemes .braced (.text "        .send()\n") ++ k)) := by
  rcases kind_cases r with ⟨hk, hp, -⟩ | ⟨v, hk, hp⟩ | ⟨p, b, hk, hp, hj, hb⟩
  · rw [hk, body, hp]
    exact (begins_text (by decide) (by decide)).append _
  · rw [hk, body, hp]
    exact begins_cons_text (by decide) (by decide) _ _
  · rw [hk, body_text hp hj hb]
    exact (begins_text_append (by decide) (begins_literal _ _)).append _

theorem layout : TextLayout .braced dialect body where
  readable := readable_dialect
  absent r h := by rw [body, h]
  json := ⟨[.text "        .body(serde_json::json!("], ").to_string())\n", [], 2, by decide,
    by decide, fun r v h => by rw [body, h]⟩
  text := ⟨[.text "        .body("], [.text ")\n"], fun r p b hp hj hb => body_text hp hj hb⟩

theorem body_cancel {r r' : Request} {k : List Lexeme} (hheaders : r.headers = r'.headers)
    (h : lexemes .braced (body r) ++ (Fragment.lexemes .braced (.text "        .send()\n") ++ k) =
      lexemes .braced (body r') ++ (Fragment.lexemes .braced (.text "        .send()\n") ++ k)) :
    r.payload? = r'.payload? :=
  (layout.cancel (eq_of_begins distinct_bodyTag (begins_body r k) (h ▸ begins_body r' k)) h).1
    hheaders

def methodTag : Option StandardMethod → List (Option Char)
  | some m => front "reqwest::Method::" ++ front m.name
  | none => front "reqwest::Method::from_bytes("

theorem distinct_methodTag : Distinct methodTag :=
  distinct_of_all StandardMethod.mem_choices (by decide)

theorem begins_method (r : Request) (k : List Lexeme) :
    Begins (methodTag r.standardMethod?) (lexemes .braced (method r) ++ k) := by
  cases h : r.standardMethod? with
  | none =>
    rw [method, h]
    exact begins_cons_text (by decide) (by decide) _ _
  | some m =>
    rw [method, h]
    exact (begins_text_append (by decide)
      ((begins_text (m.markless_name .braced) (List.prefix_refl _)).append _)).append _

theorem methodLayout : MethodLayout .braced methodTag method where
  distinct := distinct_methodTag
  begins := begins_method
  standard := ⟨fun m => [.text "reqwest::Method::", .text m.name], fun r m h => by rw [method, h]⟩
  other := ⟨[.text "reqwest::Method::from_bytes("], [.text ".as_bytes())?"],
    fun r h => by rw [method, h]; rfl⟩

theorem same_of_lexemes {r r' : Request}
    (h : lexemes .braced (source r) = lexemes .braced (source r')) : SameRequest r r' := by
  simp only [source, concat_cons, concat_nil, lexemes_append, lexemes_cons, lexemes_nil,
    List.cons_append, List.nil_append, List.append_nil, List.append_cancel_left_eq] at h
  obtain ⟨hmethod, h⟩ := methodLayout.cancel h
  simp only [Fragment.lexemes_literal, List.cons_append, List.nil_append,
    List.append_cancel_left_eq, List.cons.injEq, Lexeme.literal.injEq, Option.some.injEq] at h
  obtain ⟨hurl, h⟩ := h
  have hclosed (r : Request) (k : List Lexeme) : ¬ Begins (front "        .header(")
      (lexemes .braced (body r) ++
        (Fragment.lexemes .braced (.text "        .send()\n") ++ k)) :=
    (begins_body r k).not_of_clash (clash_header _)
  obtain ⟨hheaders, h⟩ := forEach_cancel (selfDelimiting_header _ _ _) (by decide)
    (hclosed r _) (hclosed r' _) h
  exact ⟨hurl, hheaders, hmethod, body_cancel hheaders h⟩

end Rust

namespace Go

theorem readable_dialect : dialect.Readable .double := by
  constructor <;> decide

theorem setup_text {r : Request} {p : Payload} {b : String} (hp : r.payload? = some p)
    (hj : p.isJson = false) (hb : r.body = some b) :
    setup r = [.text "\tbody := strings.NewReader(", .literal b, .text ")\n\n"] := by
  cases p <;> simp_all [setup, Payload.isJson]

/-- The packages that a body of this kind calls for. -/
def packagesOf : Option Bool → List String
  | none => ["fmt", "io", "net/http"]
  | some true => ["bytes", "encoding/json", "fmt", "io", "net/http"]
  | some false => ["fmt", "io", "net/http", "strings"]

/-- How a body of this kind is read. -/
def readerOf : Option Bool → Fragment
  | none => .text "nil"
  | some true => .text "bytes.NewReader(payload)"
  | some false => .text "body"

theorem packages_eq (r : Request) :
    packages r = packagesOf r.kind ∧ reader r = readerOf r.kind := by
  rcases kind_cases r with ⟨hk, hp, -⟩ | ⟨v, hk, hp⟩ | ⟨p, b, hk, hp, hj, -⟩
  · rw [packages, reader, hp, hk]
    exact ⟨rfl, rfl⟩
  · rw [packages, reader, hp, hk]
    exact ⟨rfl, rfl⟩
  · rw [packages, reader, hp, hk]
    cases p with
    | json v => cases hj
    | form fs => exact ⟨rfl, rfl⟩
    | raw t => exact ⟨rfl, rfl⟩

theorem packagesOf_injective {k k' : Option Bool} (h : packagesOf k = packagesOf k') : k = k' := by
  revert h
  rcases k with _ | (_ | _) <;> rcases k' with _ | (_ | _) <;> decide

theorem layout : TextLayout .double dialect setup where
  readable := readable_dialect
  absent r h := by rw [setup, h]
  json := ⟨[.text "\tpayload, err := json.Marshal("], ")\n", [checkError, .text "\n"], 1,
    by decide, by decide, fun r v h => by rw [setup, h]⟩
  text := ⟨[.text "\tbody := strings.NewReader("], [.text ")\n\n"],
    fun r p b hp hj hb => setup_text hp hj hb⟩

theorem same_of_lexemes {r r' : Request}
    (h : lexemes .double (source r) = lexemes .double (source r')) : SameRequest r r' := by
  simp only [source, concat_cons, concat_nil, lexemes_append, lexemes_cons, lexemes_nil,
    Fragment.lexemes_literal, List.cons_append, List.nil_append, List.append_nil,
    List.append_cancel_left_eq] at h
  obtain ⟨hpackages, h⟩ := forEach_text_cancel
    (selfDelimiting_single (f := fun p : String => p) (fun _ _ h => h) "\t" "\n") (by decide)
    (by decide) (by decide) h
  rw [(packages_eq r).1, (packages_eq r').1] at hpackages
  have hkind := packagesOf_injective hpackages
  obtain ⟨hpayload, h⟩ := layout.cancel hkind h
  rw [(packages_eq r).2, (packages_eq r').2, hkind] at h
  simp only [List.append_cancel_left_eq, List.cons.injEq, Lexeme.literal.injEq,
    Option.some.injEq] at h
  obtain ⟨hmethod, hurl, h⟩ := h
  obtain ⟨hheaders, -⟩ := forEach_text_cancel (selfDelimiting_header _ _ _) (by decide)
    (by decide) (by decide) h
  exact ⟨hurl, hheaders, hmethod, hpayload hheaders⟩

end Go

namespace Php

theorem readable_dialect : dialect.Readable .single := by
  constructor <;> decide

def bodyTag : Option Bool → List (Option Char)
  | none => front "\n$response"
  | some true => front "curl_setopt($ch, CURLOPT_POSTFIELDS, json"
  | some false => front "curl_setopt($ch, CURLOPT_POSTFIELDS, " ++ [none]

theorem distinct_bodyTag : Distinct bodyTag :=
  distinct_of_all Payload.mem_kinds (by decide)

theorem clash_headers (k : Option Bool) :
    Clash (bodyTag k) (front "curl_setopt($ch, CURLOPT_HTTPHEADER, [\n") := by
  rcases k with _ | (_ | _) <;> decide

/-- The text after the body. -/
def afterBody : String := "\n$response = curl_exec($ch);\n"

theorem body_text {r : Request} {p : Payload} {b : String} (hp : r.payload? = some p)
    (hj : p.isJson = false) (hb : r.body = some b) :
    body r =
      [.text "curl_setopt($ch, CURLOPT_POSTFIELDS, ", .literal b, .text ");\n"] := by
  cases p <;> simp_all [body, Payload.isJson]

theorem begins_body (r : Request) (k : List Lexeme) :
    Begins (bodyTag r.kind)
      (lexemes .single (body r) ++ (Fragment.lexemes .single (.text afterBody) ++ k)) := by
  rcases kind_cases r with ⟨hk, hp, -⟩ | ⟨v, hk, hp⟩ | ⟨p, b, hk, hp, hj, hb⟩
  · rw [hk, body, hp]
    exact (begins_text (by decide) (by decide)).append _
  · rw [hk, body, hp]
    exact begins_cons_text (by decide) (by decide) _ _
  · rw [hk, body_text hp hj hb]
    exact (begins_text_append (by decide) (begins_literal _ _)).append _

theorem layout : TextLayout .single dialect body where
  readable := readable_dialect
  absent r h := by rw [body, h]
  json := ⟨[.text "curl_setopt($ch, CURLOPT_POSTFIELDS, json_encode("], "));\n", [], 0,
    by decide, by decide, fun r v h => by rw [body, h]⟩
  text := ⟨[.text "curl_setopt($ch, CURLOPT_POSTFIELDS, "], [.text ");\n"],
    fun r p b hp hj hb => body_text hp hj hb⟩

theorem body_cancel {r r' : Request} {k : List Lexeme} (hheaders : r.headers = r'.headers)
    (h : lexemes .single (body r) ++ (Fragment.lexemes .single (.text afterBody) ++ k) =
      lexemes .single (body r') ++ (Fragment.lexemes .single (.text afterBody) ++ k)) :
    r.payload? = r'.payload? :=
  (layout.cancel (eq_of_begins distinct_bodyTag (begins_body r k) (h ▸ begins_body r' k)) h).1
    hheaders

/-- The line of a header. -/
def line (h : Header) : String := h.name ++ ": " ++ h.value

theorem line_injective {a b : Header} (ha : ':' ∉ a.name.toList) (hb : ':' ∉ b.name.toList)
    (h : line a = line b) : a = b := by
  have hcut (a : Header) (ha : ':' ∉ a.name.toList) :
      Text.cut? ':' (line a).toList = some (a.name.toList, ' ' :: a.value.toList) := by
    have hline : (line a).toList = a.name.toList ++ ':' :: ' ' :: a.value.toList := by
      simp [line]
    rw [hline, Text.cut?_append ha]
  have heq := hcut a ha
  rw [h, hcut b hb] at heq
  simp only [Option.some.injEq, Prod.mk.injEq, List.cons.injEq, String.toList_inj,
    true_and] at heq
  exact Header.eq_of heq.1.symm heq.2.symm

theorem map_line_injective {hs hs' : Headers} (h : ∀ a ∈ hs, ':' ∉ a.name.toList)
    (h' : ∀ a ∈ hs', ':' ∉ a.name.toList) (heq : hs.map line = hs'.map line) : hs = hs' := by
  induction hs generalizing hs' with
  | nil => exact (List.map_eq_nil_iff.1 heq.symm).symm
  | cons a hs ih =>
    cases hs' with
    | nil => simp at heq
    | cons b hs' =>
      rw [List.map_cons, List.map_cons, List.cons.injEq] at heq
      have hab := line_injective (h a (by simp)) (h' b (by simp)) heq.1
      have htail := ih (fun c hc => h c (by simp [hc])) (fun c hc => h' c (by simp [hc])) heq.2
      rw [hab, htail]

theorem headers_eq (r : Request) : headers r =
    if (r.headers.map line).isEmpty then []
    else concat [[.text "curl_setopt($ch, CURLOPT_HTTPHEADER, [\n"],
      forEach (r.headers.map line) fun l => [.text "    ", .literal l, .text ",\n"],
      [.text "]);\n"]] := by
  rw [List.isEmpty_map, Source.forEach, List.flatMap_map]
  rfl

theorem same_of_lexemes {r r' : Request} (hr : ∀ h ∈ r.headers, ':' ∉ h.name.toList)
    (hr' : ∀ h ∈ r'.headers, ':' ∉ h.name.toList)
    (h : lexemes .single (source r) = lexemes .single (source r')) : SameRequest r r' := by
  simp only [source, concat_cons, concat_nil, lexemes_append, lexemes_cons, lexemes_nil,
    Fragment.lexemes_literal, List.cons_append, List.nil_append, List.append_nil,
    List.append_cancel_left_eq, List.cons.injEq, Lexeme.literal.injEq, Option.some.injEq] at h
  obtain ⟨hurl, hmethod, h⟩ := h
  have hopen (r : Request) (k : List Lexeme) :
      ¬ Begins (front "curl_setopt($ch, CURLOPT_HTTPHEADER, [\n")
        (lexemes .single (body r) ++ (Fragment.lexemes .single (.text afterBody) ++ k)) :=
    (begins_body r k).not_of_clash (clash_headers _)
  rw [headers_eq, headers_eq] at h
  obtain ⟨hlines, h⟩ := optional_cancel
    (selfDelimiting_single (f := fun l : String => l) (fun _ _ h => h) "    " ",\n") (by decide)
    (by decide) (by decide) (by decide) (hopen r _) (hopen r' _) h
  have hheaders := map_line_injective hr hr' hlines
  exact ⟨hurl, hheaders, hmethod, body_cancel hheaders h⟩

end Php

namespace Swift

theorem readable_dialect : dialect.Readable .braced := by
  constructor <;> decide

/-- The ways of writing a body. -/
inductive BodyForm where
  | absent | array | object | text
  deriving DecidableEq

namespace BodyForm

def all : List BodyForm := [.absent, .array, .object, .text]

theorem mem_all (b : BodyForm) : b ∈ all := by cases b <;> decide

def tag : BodyForm → List (Option Char)
  | .absent => front "\nlet ("
  | .array => front "\nlet payload: " ++ front "[A"
  | .object => front "\nlet payload: " ++ front "[S"
  | .text => front "request.http"

theorem distinct_tag : Distinct tag := distinct_of_all mem_all (by decide)

theorem clash_header (b : BodyForm) : Clash b.tag (front "request.setValue(") := by
  cases b <;> decide

end BodyForm

/-- The way of writing the body of a request. -/
def form (r : Request) : BodyForm :=
  match r.payload? with
  | some (.json v) => if v.isContainer then if v.isArray then .array else .object else .text
  | some _ => .text
  | none => .absent

/-- The source of a container. -/
def containerBody (v : Json) : Source :=
  concat [[.text "\nlet payload: ", if v.isArray then "[Any]" else "[String: Any]", .text " = "],
    v.source dialect 0,
    [.text "\nrequest.httpBody = try JSONSerialization.data(withJSONObject: payload)\n"]]

theorem form_cases (r : Request) :
    (form r = .absent ∧ r.payload? = none ∧ body r = []) ∨
    (∃ v, (form r = if v.isArray then .array else .object) ∧ r.payload? = some (.json v) ∧
      body r = containerBody v) ∨
    ∃ b, form r = .text ∧ r.body = some b ∧
      body r = [.text "request.httpBody = Data(", .literal b, .text ".utf8)\n"] := by
  rcases payload_cases r with ⟨h, -⟩ | ⟨v, b, h, hb⟩ | ⟨fs, b, h, hb⟩ | ⟨t, h, hb⟩
  · exact .inl ⟨by rw [form, h], h, by rw [body, h]⟩
  · by_cases hv : v.isContainer
    · exact .inr (.inl ⟨v, by simp [form, h, hv], h, by rw [body, h]; exact if_pos hv⟩)
    · exact .inr (.inr ⟨b, by simp [form, h, hv], hb, by simp [body, h, hv, textBody, hb]⟩)
  · exact .inr (.inr ⟨b, by simp [form, h], hb, by simp [body, h, textBody, hb]⟩)
  · exact .inr (.inr ⟨t, by simp [form, h], hb, by simp [body, h, textBody, hb]⟩)

/-- The text after the body. -/
def afterBody : String :=
  "\nlet (data, response) = try await URLSession.shared.data(for: request)\n"

theorem begins_body (r : Request) (k : List Lexeme) :
    Begins (form r).tag
      (lexemes .braced (body r) ++ (Fragment.lexemes .braced (.text afterBody) ++ k)) := by
  rcases form_cases r with ⟨hf, -, hb⟩ | ⟨v, hf, -, hb⟩ | ⟨b, hf, -, hb⟩
  · rw [hf, hb]
    exact (begins_text (by decide) (by decide)).append _
  · rw [hf, hb, containerBody]
    cases v.isArray
    · exact (begins_text_append (by decide)
        ((begins_text (by decide) (by decide)).append _)).append _
    · exact (begins_text_append (by decide)
        ((begins_text (by decide) (by decide)).append _)).append _
  · rw [hf, hb]
    exact begins_cons_text (by decide) (by decide) _ _

theorem body_cancel {r r' : Request} {k : List Lexeme} (hheaders : r.headers = r'.headers)
    (h : lexemes .braced (body r) ++ (Fragment.lexemes .braced (.text afterBody) ++ k) =
      lexemes .braced (body r') ++ (Fragment.lexemes .braced (.text afterBody) ++ k)) :
    r.payload? = r'.payload? := by
  have hform := eq_of_begins BodyForm.distinct_tag (begins_body r k) (h ▸ begins_body r' k)
  have hcontainer (v : Json) : (if v.isArray then BodyForm.array else .object) ≠ .absent ∧
      (if v.isArray then BodyForm.array else .object) ≠ .text := by
    split <;> decide
  rcases form_cases r with ⟨hf, hp, hb⟩ | ⟨v, hf, hp, hb⟩ | ⟨b, hf, hp, hb⟩ <;>
    rcases form_cases r' with ⟨hf', hp', hb'⟩ | ⟨w, hf', hp', hb'⟩ | ⟨b', hf', hp', hb'⟩ <;>
    rw [hf, hf'] at hform
  · rw [hp, hp']
  · exact absurd hform.symm (hcontainer w).1
  · cases hform
  · exact absurd hform (hcontainer v).1
  · have harray : v.isArray = w.isArray := by
      revert hform
      cases v.isArray <;> cases w.isArray <;> decide
    rw [hb, hb', containerBody, containerBody, harray] at h
    rw [hp, hp', (source_between readable_dialect (by decide) (by decide) h).1]
  · exact absurd hform (hcontainer v).2
  · cases hform
  · exact absurd hform.symm (hcontainer w).2
  · rw [hb, hb'] at h
    have hbb : b = b' := by simpa using h
    exact payload?_congr hheaders (by rw [hp, hp', hbb])

theorem same_of_lexemes {r r' : Request}
    (h : lexemes .braced (source r) = lexemes .braced (source r')) : SameRequest r r' := by
  simp only [source, concat_cons, concat_nil, lexemes_append, lexemes_cons, lexemes_nil,
    Fragment.lexemes_literal, List.cons_append, List.nil_append, List.append_nil,
    List.append_cancel_left_eq, List.cons.injEq, Lexeme.literal.injEq, Option.some.injEq] at h
  obtain ⟨hurl, hmethod, h⟩ := h
  have hclosed (r : Request) (k : List Lexeme) : ¬ Begins (front "request.setValue(")
      (lexemes .braced (body r) ++ (Fragment.lexemes .braced (.text afterBody) ++ k)) :=
    (begins_body r k).not_of_clash (BodyForm.clash_header _)
  have hpair := selfDelimiting_pair (q := .braced) (f := Header.value) (g := Header.name)
    (fun _ _ hvalue hname => Header.eq_of hname hvalue)
    "request.setValue(" ", forHTTPHeaderField: " ")\n"
  obtain ⟨hheaders, h⟩ := forEach_cancel hpair (by decide) (hclosed r _) (hclosed r' _) h
  exact ⟨hurl, hheaders, hmethod, body_cancel hheaders h⟩

end Swift

/-! ### Plain text -/

namespace Java

/-- The ways of setting method and body. -/
inductive Call where
  | body | get | delete | other
  deriving DecidableEq

namespace Call

def all : List Call := [.body, .get, .delete, .other]

theorem mem_all (c : Call) : c ∈ all := by cases c <;> decide

def tag : Call → List (Option Char)
  | .body => front "            .method(" ++ none :: front ", HttpRequest.BodyPublishers.o"
  | .get => front "            .G"
  | .delete => front "            .D"
  | .other => front "            .method(" ++ none :: front ", HttpRequest.BodyPublishers.n"

theorem distinct_tag : Distinct tag := distinct_of_all mem_all (by decide)

end Call

def call (r : Request) : Call :=
  match r.body, r.standardMethod? with
  | some _, _ => .body
  | none, some .get => .get
  | none, some .delete => .delete
  | none, _ => .other

theorem call_cases (r : Request) :
    (∃ b, call r = .body ∧ r.body = some b ∧ method r =
      [.text "            .method(", .literal r.canonicalMethod,
        .text ", HttpRequest.BodyPublishers.ofString(", .literal b, .text "))\n"]) ∨
    (call r = .get ∧ r.body = none ∧ r.canonicalMethod = "GET" ∧
      method r = [.text "            .GET()\n"]) ∨
    (call r = .delete ∧ r.body = none ∧ r.canonicalMethod = "DELETE" ∧
      method r = [.text "            .DELETE()\n"]) ∨
    (call r = .other ∧ r.body = none ∧ method r =
      [.text "            .method(", .literal r.canonicalMethod,
        .text ", HttpRequest.BodyPublishers.noBody())\n"]) := by
  cases hb : r.body with
  | some b => exact .inl ⟨b, by simp [call, hb], rfl, by simp [method, hb]⟩
  | none =>
    cases hm : r.standardMethod? with
    | none => exact .inr (.inr (.inr ⟨by simp [call, hb, hm], rfl, by simp [method, hb, hm]⟩))
    | some m =>
      have hname : r.canonicalMethod = m.name := by simp [Request.canonicalMethod, hm]
      cases m <;> simp [call, method, hb, hm, hname, StandardMethod.name]

theorem begins_method (r : Request) (k : List Lexeme) :
    Begins (call r).tag (lexemes .double (method r) ++ k) := by
  rcases call_cases r with ⟨b, hc, -, hm⟩ | ⟨hc, -, -, hm⟩ | ⟨hc, -, -, hm⟩ | ⟨hc, -, hm⟩
  · rw [hc, hm]
    exact (begins_text_append (by decide) (begins_literal_cons _
      ((begins_text (by decide) (by decide)).append _))).append _
  · rw [hc, hm]
    exact begins_cons_text (by decide) (by decide) _ _
  · rw [hc, hm]
    exact begins_cons_text (by decide) (by decide) _ _
  · rw [hc, hm]
    exact (begins_text_append (by decide) (begins_literal_cons _
      ((begins_text (by decide) (by decide)).append _))).append _

theorem method_cancel {r r' : Request} {k k' : List Lexeme}
    (h : lexemes .double (method r) ++ k = lexemes .double (method r') ++ k') :
    r.canonicalMethod = r'.canonicalMethod ∧ r.body = r'.body ∧ k = k' := by
  have hcall := eq_of_begins Call.distinct_tag (begins_method r k) (h ▸ begins_method r' k')
  rcases call_cases r with ⟨b, hc, hb, hm⟩ | ⟨hc, hb, hn, hm⟩ | ⟨hc, hb, hn, hm⟩ | ⟨hc, hb, hm⟩ <;>
    rcases call_cases r' with ⟨b', hc', hb', hm'⟩ | ⟨hc', hb', hn', hm'⟩ |
      ⟨hc', hb', hn', hm'⟩ | ⟨hc', hb', hm'⟩ <;>
    rw [hc, hc'] at hcall <;> try cases hcall
  · rw [hm, hm'] at h
    obtain ⟨hmethod, hbody, hk⟩ :
        r.canonicalMethod = r'.canonicalMethod ∧ b = b' ∧ k = k' := by simpa using h
    exact ⟨hmethod, by rw [hb, hb', hbody], hk⟩
  · rw [hm, hm'] at h
    exact ⟨by rw [hn, hn'], by rw [hb, hb'], List.append_cancel_left h⟩
  · rw [hm, hm'] at h
    exact ⟨by rw [hn, hn'], by rw [hb, hb'], List.append_cancel_left h⟩
  · rw [hm, hm'] at h
    obtain ⟨hmethod, hk⟩ : r.canonicalMethod = r'.canonicalMethod ∧ k = k' := by simpa using h
    exact ⟨hmethod, by rw [hb, hb'], hk⟩

theorem same_of_lexemes {r r' : Request}
    (h : lexemes .double (source r) = lexemes .double (source r')) : SameRequest r r' := by
  simp only [source, concat_cons, concat_nil, lexemes_append, lexemes_cons, lexemes_nil,
    Fragment.lexemes_literal, List.cons_append, List.nil_append, List.append_nil,
    List.append_cancel_left_eq, List.cons.injEq, Lexeme.literal.injEq, Option.some.injEq] at h
  obtain ⟨hurl, h⟩ := h
  obtain ⟨hmethod, hbody, h⟩ := method_cancel h
  obtain ⟨hheaders, -⟩ := forEach_text_cancel (selfDelimiting_header _ _ _) (by decide)
    (by decide) (by decide) h
  exact ⟨hurl, hheaders, hmethod, payload?_congr hheaders hbody⟩

end Java

namespace CSharp

/-- The import that a body calls for. -/
def importTag : Bool → List (Option Char)
  | true => front "using System.Text"
  | false => front "\nusing"

theorem distinct_importTag : Distinct importTag := by
  intro a b
  cases a <;> cases b <;> decide

/-- The text after the imports. -/
def afterImports : String := "\nusing var client = new HttpClient();\n\n"

theorem imports_cancel {b b' : Bool} {k k' : List Lexeme}
    (h : lexemes .double (if b then [.text "using System.Text;\n"] else []) ++
        (Fragment.lexemes .double (.text afterImports) ++ k) =
      lexemes .double (if b' then [.text "using System.Text;\n"] else []) ++
        (Fragment.lexemes .double (.text afterImports) ++ k')) : b = b' ∧ k = k' := by
  have hbegin (b : Bool) (k : List Lexeme) : Begins (importTag b)
      (lexemes .double (if b then [.text "using System.Text;\n"] else []) ++
        (Fragment.lexemes .double (.text afterImports) ++ k)) := by
    cases b
    · exact (begins_text (by decide) (by decide)).append _
    · exact begins_cons_text (by decide) (by decide) _ _
  have heq : b = b' := eq_of_begins distinct_importTag (hbegin b k) (h ▸ hbegin b' k')
  rw [heq] at h
  exact ⟨heq, List.append_cancel_left (List.append_cancel_left h)⟩

def methodTag : Option StandardMethod → List (Option Char)
  | some m => front "HttpMethod." ++ front m.capitalName
  | none => front "new HttpMethod("

theorem distinct_methodTag : Distinct methodTag :=
  distinct_of_all StandardMethod.mem_choices (by decide)

theorem begins_method (r : Request) (k : List Lexeme) :
    Begins (methodTag r.standardMethod?) (lexemes .double (method r) ++ k) := by
  cases h : r.standardMethod? with
  | none =>
    rw [method, h]
    exact begins_cons_text (by decide) (by decide) _ _
  | some m =>
    rw [method, h]
    exact (begins_text_append (by decide)
      ((begins_text (m.markless_capitalName .double) (List.prefix_refl _)).append _)).append _

theorem methodLayout : MethodLayout .double methodTag method where
  distinct := distinct_methodTag
  begins := begins_method
  standard := ⟨fun m => [.text "HttpMethod.", .text m.capitalName], fun r m h => by rw [method, h]⟩
  other := ⟨[.text "new HttpMethod("], [.text ")"], fun r h => by rw [method, h]; rfl⟩

theorem body_cancel {r r' : Request} {k k' : List Lexeme} (hsome : r.body.isSome = r'.body.isSome)
    (h : lexemes .double (body r) ++ k = lexemes .double (body r') ++ k') :
    r.body = r'.body ∧ k = k' := by
  cases hb : r.body with
  | none =>
    cases hb' : r'.body with
    | none =>
      rw [body, body, hb, hb'] at h
      exact ⟨rfl, h⟩
    | some b' => simp [hb, hb'] at hsome
  | some b =>
    cases hb' : r'.body with
    | none => simp [hb, hb'] at hsome
    | some b' =>
      rw [body, body, hb, hb'] at h
      obtain ⟨hbody, -, hk⟩ : b = b' ∧ mediaType r = mediaType r' ∧ k = k' := by simpa using h
      exact ⟨by rw [hbody], hk⟩

/-- What a header begins with, by whether it goes to the content. -/
def headerTag : Bool → List (Option Char)
  | true => front "request.C"
  | false => front "request.H"

theorem distinct_headerTag : Distinct headerTag := by
  intro a b
  cases a <;> cases b <;> decide

theorem header_cases (r : Request) (h : Header) :
    (header r h = [.text "request.Content.Headers.Remove(", .literal h.name, .text ");\n",
        .text "request.Content.Headers.TryAddWithoutValidation(", .literal h.name, .text ", ",
        .literal h.value, .text ");\n"] ∧ Begins (headerTag true) (lexemes .double (header r h))) ∨
    (header r h = [.text "request.Headers.TryAddWithoutValidation(", .literal h.name,
        .text ", ", .literal h.value, .text ");\n"] ∧
      Begins (headerTag false) (lexemes .double (header r h))) := by
  by_cases hc : r.body.isSome ∧ isContentHeader h.name
  · rw [header, if_pos hc]
    exact .inl ⟨rfl, (begins_text (by decide) (by decide)).append _⟩
  · rw [header, if_neg hc]
    exact .inr ⟨rfl, (begins_text (by decide) (by decide)).append _⟩

theorem begins_header (r : Request) (h : Header) :
    Begins (front "request.") (lexemes .double (header r h)) := by
  rcases header_cases r h with ⟨hh, -⟩ | ⟨hh, -⟩
  · rw [hh]
    exact (begins_text (by decide) (by decide)).append _
  · rw [hh]
    exact (begins_text (by decide) (by decide)).append _

theorem selfDelimiting_header (r : Request) :
    SelfDelimiting fun h => lexemes .double (header r h) := by
  intro a b k k' (h : lexemes .double (header r a) ++ k = lexemes .double (header r b) ++ k')
  rcases header_cases r a with ⟨ha, hta⟩ | ⟨ha, hta⟩ <;>
    rcases header_cases r b with ⟨hb, htb⟩ | ⟨hb, htb⟩
  · rw [ha, hb] at h
    obtain ⟨hname, -, hvalue, hk⟩ : a.name = b.name ∧ a.name = b.name ∧ a.value = b.value ∧
        k = k' := by simpa using h
    exact ⟨Header.eq_of hname hvalue, hk⟩
  · have hboth := hta.append k
    rw [h] at hboth
    have htags : true = false := eq_of_begins distinct_headerTag hboth (htb.append k')
    cases htags
  · have hboth := hta.append k
    rw [h] at hboth
    have htags : false = true := eq_of_begins distinct_headerTag hboth (htb.append k')
    cases htags
  · rw [ha, hb] at h
    obtain ⟨hname, hvalue, hk⟩ : a.name = b.name ∧ a.value = b.value ∧ k = k' := by simpa using h
    exact ⟨Header.eq_of hname hvalue, hk⟩

theorem header_congr {r r' : Request} (h : r.body.isSome = r'.body.isSome) :
    header r = header r' := by
  funext a
  rw [header, header, h]

theorem same_of_lexemes {r r' : Request}
    (h : lexemes .double (source r) = lexemes .double (source r')) : SameRequest r r' := by
  simp only [source, concat_cons, concat_nil, lexemes_append, lexemes_cons, lexemes_nil,
    Fragment.lexemes_literal, List.cons_append, List.nil_append, List.append_nil,
    List.append_cancel_left_eq] at h
  obtain ⟨hsome, h⟩ := imports_cancel h
  rw [List.append_cancel_left_eq] at h
  obtain ⟨hmethod, h⟩ := methodLayout.cancel h
  simp only [List.append_cancel_left_eq, List.cons.injEq, Lexeme.literal.injEq,
    Option.some.injEq] at h
  obtain ⟨hurl, h⟩ := h
  obtain ⟨hbody, h⟩ := body_cancel hsome h
  rw [header_congr hsome, lexemes_forEach, lexemes_forEach] at h
  have hclosed (k : List Lexeme) : ¬ Begins (front "request.") (Fragment.lexemes .double
      (.text "\nusing var response = await client.SendAsync(request);\n") ++ k) :=
    ((begins_text (by decide) (List.prefix_refl _)).append k).not_of_clash (by decide)
  obtain ⟨hheaders, -⟩ := (selfDelimiting_header r').flatMap (begins_header r') (hclosed _)
    (hclosed _) h
  exact ⟨hurl, hheaders, hmethod, payload?_congr hheaders hbody⟩

end CSharp

end CurlCode

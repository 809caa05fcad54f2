import CurlCode.Proofs.Json.Reading
import CurlCode.Proofs.Target.Containment

/-!
What a program tells of its request (`SameRequest`), for the languages that take forms
apart: from left to right, every part of the program is recovered and cancelled.
-/
namespace CurlCode

open Source Json

theorem Header.eq_of {a b : Header} (hname : a.name = b.name) (hvalue : a.value = b.value) :
    a = b := by
  cases a
  cases b
  simp_all

theorem Field.eq_of {a b : Field} (hname : a.name = b.name) (hvalue : a.value = b.value) :
    a = b := by
  cases a
  cases b
  simp_all

/-! ### Kinds of bodies -/

inductive BodyKind where
  | absent | json | form | raw
  deriving DecidableEq

namespace BodyKind

def all : List BodyKind := [.absent, .json, .form, .raw]

theorem mem_all (b : BodyKind) : b ∈ all := by cases b <;> decide

def ofPayload : Option Payload → BodyKind
  | none => .absent
  | some (.json _) => .json
  | some (.form _) => .form
  | some (.raw _) => .raw

end BodyKind

/-- Payloads of one kind. -/
theorem payloads_of_kind {p q : Option Payload}
    (h : BodyKind.ofPayload p = BodyKind.ofPayload q) :
    (p = none ∧ q = none) ∨ (∃ v w, p = some (.json v) ∧ q = some (.json w)) ∨
    (∃ fs gs, p = some (.form fs) ∧ q = some (.form gs)) ∨
    ∃ s t, p = some (.raw s) ∧ q = some (.raw t) := by
  rcases p with _ | (v | fs | s) <;> rcases q with _ | (w | gs | t) <;>
    simp_all [BodyKind.ofPayload]

/-! ### Kinds of methods -/

namespace StandardMethod

/-- The standard methods, and `none` for all others. -/
def choices : List (Option StandardMethod) := none :: all.map some

theorem mem_choices (m : Option StandardMethod) : m ∈ choices := by
  cases m with
  | none => exact List.mem_cons_self
  | some m => exact List.mem_cons_of_mem _ (List.mem_map_of_mem m.mem_all)

end StandardMethod

theorem canonicalMethod_eq {r r' : Request} (h : r.standardMethod? = r'.standardMethod?)
    (hmethod : r.standardMethod? = none → r.method = r'.method) :
    r.canonicalMethod = r'.canonicalMethod := by
  rw [Request.canonicalMethod, Request.canonicalMethod, ← h]
  cases hm : r.standardMethod? with
  | none => exact hmethod hm
  | some m => rfl

/-- What a program has to tell of a request. -/
structure SameRequest (r r' : Request) : Prop where
  url : r.url = r'.url
  headers : r.headers = r'.headers
  canonicalMethod : r.canonicalMethod = r'.canonicalMethod
  payload? : r.payload? = r'.payload?

/-- Names and values between texts. -/
theorem selfDelimiting_header {q : Quoting} (t₁ t₂ t₃ : String) :
    SelfDelimiting fun h : Header =>
      lexemes q [.text t₁, .literal h.name, .text t₂, .literal h.value, .text t₃] :=
  selfDelimiting_pair (fun _ _ => Header.eq_of) t₁ t₂ t₃

theorem selfDelimiting_field {q : Quoting} (t₁ t₂ t₃ : String) :
    SelfDelimiting fun f : Field =>
      lexemes q [.text t₁, .literal f.name, .text t₂, .literal f.value, .text t₃] :=
  selfDelimiting_pair (fun _ _ => Field.eq_of) t₁ t₂ t₃

/-! ### Layouts of bodies -/

/-- A JSON body stands between texts. -/
def JsonLayout (q : Quoting) (d : Json.Dialect) (body : Request → Source) : Prop :=
  ∃ (before : Source) (closing : String) (after : Source) (depth : Nat),
    q.mark ∉ closing.toList ∧ (closing.toList.head?.any fun c => !Numeral.isNumeralChar c) ∧
    ∀ r v, r.payload? = some (.json v) →
      body r = .concat [before, v.source d depth, .text closing :: after]

theorem JsonLayout.cancel {q : Quoting} {d : Json.Dialect} {body : Request → Source}
    (hl : JsonLayout q d body) (hd : d.Readable q) {r r' : Request} {v w : Json}
    {k k' : List Lexeme} (hp : r.payload? = some (.json v)) (hp' : r'.payload? = some (.json w))
    (h : lexemes q (body r) ++ k = lexemes q (body r') ++ k') : v = w ∧ k = k' := by
  obtain ⟨before, closing, after, depth, hclosing, hhead, hbody⟩ := hl
  rw [hbody r v hp, hbody r' w hp'] at h
  exact source_between hd hclosing hhead h

/-- A body is left out, or it is JSON, a list of fields or a literal between texts. -/
structure FormLayout (q : Quoting) (d : Json.Dialect) (body : Request → Source) : Prop where
  readable : d.Readable q
  absent : ∀ r, r.payload? = none → body r = []
  json : JsonLayout q d body
  form : ∃ (before : Source) (t₁ t₂ t₃ closing : String),
    q.mark ∉ t₁.toList ∧ q.mark ∉ closing.toList ∧ Clash (front closing) (front t₁) ∧
    ∀ r fs, r.payload? = some (.form fs) →
      body r = .concat [before, .forEach fs fun f =>
        [.text t₁, .literal f.name, .text t₂, .literal f.value, .text t₃], [.text closing]]
  raw : ∃ before after : Source, ∀ r t, r.payload? = some (.raw t) →
    body r = before ++ .literal t :: after

/-- A body of a known kind delimits itself. -/
theorem FormLayout.cancel {q : Quoting} {d : Json.Dialect} {body : Request → Source}
    (hl : FormLayout q d body) {r r' : Request} {k k' : List Lexeme}
    (hkind : BodyKind.ofPayload r.payload? = BodyKind.ofPayload r'.payload?)
    (h : lexemes q (body r) ++ k = lexemes q (body r') ++ k') :
    r.payload? = r'.payload? ∧ k = k' := by
  rcases payloads_of_kind hkind with ⟨hp, hp'⟩ | ⟨v, w, hp, hp'⟩ | ⟨fs, gs, hp, hp'⟩ |
    ⟨s, t, hp, hp'⟩
  · rw [hl.absent r hp, hl.absent r' hp'] at h
    exact ⟨by rw [hp, hp'], h⟩
  · obtain ⟨hvw, hk⟩ := hl.json.cancel hl.readable hp hp' h
    exact ⟨by rw [hp, hp', hvw], hk⟩
  · obtain ⟨before, t₁, t₂, t₃, closing, ht₁, hclosing, hclash, hbody⟩ := hl.form
    rw [hbody r fs hp, hbody r' gs hp'] at h
    obtain ⟨hfields, hk⟩ := forEach_between (selfDelimiting_field t₁ t₂ t₃) ht₁ hclosing hclash h
    exact ⟨by rw [hp, hp', hfields], hk⟩
  · obtain ⟨before, after, hbody⟩ := hl.raw
    rw [hbody r s hp, hbody r' t hp'] at h
    obtain ⟨hst, hk⟩ : s = t ∧ k = k' := by simpa using h
    exact ⟨by rw [hp, hp', hst], hk⟩

namespace Python

theorem readable_dialect : dialect.Readable .double := by
  constructor <;> decide

/-- The ways of writing a body. -/
inductive BodyForm where
  | absent | json | dictionary | pairs | raw
  deriving DecidableEq

namespace BodyForm

def all : List BodyForm := [.absent, .json, .dictionary, .pairs, .raw]

theorem mem_all (b : BodyForm) : b ∈ all := by cases b <;> decide

def ofPayload : Option Payload → BodyForm
  | none => .absent
  | some (.json _) => .json
  | some (.form fields) => if (fields.map Field.name).Nodup then .dictionary else .pairs
  | some (.raw _) => .raw

def kind : BodyForm → BodyKind
  | .absent => .absent
  | .json => .json
  | .dictionary | .pairs => .form
  | .raw => .raw

theorem kind_ofPayload (p : Option Payload) : (ofPayload p).kind = .ofPayload p := by
  rcases p with _ | (v | fs | t)
  · rfl
  · rfl
  · rw [ofPayload]
    split <;> rfl
  · rfl

def tag : BodyForm → List (Option Char)
  | .absent => front "\nresponse"
  | .json => front "\npayload"
  | .dictionary => front "\ndata = " ++ front "\x7b"
  | .pairs => front "\ndata = " ++ front "["
  | .raw => front "\ndata = " ++ [none]

theorem distinct_tag : Distinct tag := distinct_of_all mem_all (by decide)

theorem clash_headers (b : BodyForm) : Clash b.tag (front "\nheaders = \x7b\n") := by
  cases b <;> decide

end BodyForm

theorem begins_body (r : Request) (k : List Lexeme) :
    Begins (BodyForm.ofPayload r.payload?).tag
      (lexemes .double (body r) ++ (Fragment.lexemes .double (.text "\nresponse = ") ++ k)) := by
  rcases payload_cases r with ⟨h, -⟩ | ⟨v, b, h, -⟩ | ⟨fs, b, h, -⟩ | ⟨t, h, -⟩
  · rw [body, h, BodyForm.ofPayload]
    exact (begins_text (by decide) (by decide)).append _
  · rw [body, h, BodyForm.ofPayload]
    exact begins_cons_text (by decide) (by decide) _ _
  · rw [body, h, BodyForm.ofPayload]
    simp only [form]
    split
    · exact (begins_text_append (by decide)
        ((begins_text (by decide) (by decide)).append _)).append _
    · exact (begins_text_append (by decide)
        ((begins_text (by decide) (by decide)).append _)).append _
  · rw [body, h, BodyForm.ofPayload]
    exact (begins_text_append (by decide) (begins_literal _ _)).append _

theorem form_cancel {fs gs : List Field} {k k' : List Lexeme}
    (hnodup : (fs.map Field.name).Nodup ↔ (gs.map Field.name).Nodup)
    (h : lexemes .double (form fs) ++ k = lexemes .double (form gs) ++ k') :
    fs = gs ∧ k = k' := by
  by_cases hfs : (fs.map Field.name).Nodup
  · rw [form, form, if_pos hfs, if_pos (hnodup.1 hfs)] at h
    exact forEach_between (selfDelimiting_field _ _ _) (by decide) (by decide) (by decide) h
  · rw [form, form, if_neg hfs, if_neg (fun hgs => hfs (hnodup.2 hgs))] at h
    exact forEach_between (selfDelimiting_field _ _ _) (by decide) (by decide) (by decide) h

/-- What a call begins with. -/
def callTag : Option StandardMethod → List (Option Char)
  | some m => front "requests." ++ (front m.lowerName ++ front "(")
  | none => front "requests.request("

theorem distinct_callTag : Distinct callTag :=
  distinct_of_all StandardMethod.mem_choices (by decide)

theorem begins_call (r : Request) (k : List Lexeme) :
    Begins (callTag r.standardMethod?) (lexemes .double (call r) ++ k) := by
  cases h : r.standardMethod? with
  | none =>
    rw [call, h]
    exact begins_cons_text (by decide) (by decide) _ _
  | some m =>
    rw [call, h]
    exact (begins_text_append (by decide) (begins_text_append (m.markless_lowerName .double)
      ((begins_text (by decide) (by decide)).append _))).append _

theorem body_cancel {r r' : Request} {k k' : List Lexeme}
    (h : lexemes .double (body r) ++ (Fragment.lexemes .double (.text "\nresponse = ") ++ k) =
      lexemes .double (body r') ++ (Fragment.lexemes .double (.text "\nresponse = ") ++ k')) :
    r.payload? = r'.payload? ∧ k = k' := by
  have hform := eq_of_begins BodyForm.distinct_tag (begins_body r k) (h ▸ begins_body r' k')
  have hkind := congrArg BodyForm.kind hform
  rw [BodyForm.kind_ofPayload, BodyForm.kind_ofPayload] at hkind
  rcases payloads_of_kind hkind with ⟨hp, hp'⟩ | ⟨v, w, hp, hp'⟩ | ⟨fs, gs, hp, hp'⟩ |
    ⟨s, t, hp, hp'⟩
  · rw [body, body, hp, hp'] at h
    exact ⟨by rw [hp, hp'], List.append_cancel_left h⟩
  · rw [body, body, hp, hp'] at h
    obtain ⟨hvw, hk⟩ := source_between readable_dialect (by decide) (by decide) h
    exact ⟨by rw [hp, hp', hvw], List.append_cancel_left hk⟩
  · have hnodup : (fs.map Field.name).Nodup ↔ (gs.map Field.name).Nodup := by
      rw [hp, hp', BodyForm.ofPayload, BodyForm.ofPayload] at hform
      split at hform <;> split at hform <;> simp_all
    rw [body, body, hp, hp'] at h
    simp only [concat_cons, concat_nil, lexemes_append, lexemes_cons, lexemes_nil,
      List.append_assoc, List.append_nil, List.append_cancel_left_eq] at h
    obtain ⟨hfields, hk⟩ := form_cancel hnodup h
    exact ⟨by rw [hp, hp', hfields], by simpa using hk⟩
  · rw [body, body, hp, hp'] at h
    obtain ⟨hst, hk⟩ : s = t ∧ k = k' := by simpa using h
    exact ⟨by rw [hp, hp', hst], hk⟩

theorem call_cancel {r r' : Request} {k k' : List Lexeme}
    (h : lexemes .double (call r) ++ k = lexemes .double (call r') ++ k') :
    r.canonicalMethod = r'.canonicalMethod := by
  have hstandard := eq_of_begins distinct_callTag (begins_call r k) (h ▸ begins_call r' k')
  refine canonicalMethod_eq hstandard ?_
  intro hnone
  rw [call, call, ← hstandard, hnone] at h
  simp only [concat_cons, lexemes_append, lexemes_cons, Fragment.lexemes_literal,
    List.cons_append, List.nil_append, List.append_assoc, List.append_cancel_left_eq,
    List.cons.injEq, Lexeme.literal.injEq, Option.some.injEq] at h
  exact h.1

theorem same_of_lexemes {r r' : Request}
    (h : lexemes .double (source r) = lexemes .double (source r')) : SameRequest r r' := by
  simp only [source, concat_cons, concat_nil, lexemes_append, lexemes_cons, lexemes_nil,
    Fragment.lexemes_literal, List.cons_append, List.nil_append, List.append_nil,
    List.append_cancel_left_eq, List.cons.injEq, Lexeme.literal.injEq, Option.some.injEq] at h
  obtain ⟨hurl, h⟩ := h
  have hopen (r : Request) (k : List Lexeme) : ¬ Begins (front "\nheaders = \x7b\n")
      (lexemes .double (body r) ++ (Fragment.lexemes .double (.text "\nresponse = ") ++ k)) :=
    (begins_body r k).not_of_clash (BodyForm.clash_headers _)
  obtain ⟨hheaders, h⟩ := optional_cancel (selfDelimiting_header _ _ _) (by decide) (by decide)
    (by decide) (by decide) (hopen r _) (hopen r' _) h
  obtain ⟨hpayload, h⟩ := body_cancel h
  exact ⟨hurl, hheaders, call_cancel h, hpayload⟩

end Python

namespace JavaScript

theorem readable_dialect : dialect.Readable .double := by
  constructor <;> decide

/-- What a program goes on with where its body would stand. -/
def bodyTag : BodyKind → List (Option Char)
  | .absent => front "\x7d"
  | .json => front "  body: J"
  | .form => front "  body: n"
  | .raw => front "  body: " ++ [none]

theorem distinct_bodyTag : Distinct bodyTag :=
  distinct_of_all BodyKind.mem_all (by decide)

theorem clash_headers (b : BodyKind) : Clash (bodyTag b) (front "  headers: \x7b\n") := by
  cases b <;> decide

theorem begins_body (r : Request) (k : List Lexeme) :
    Begins (bodyTag (.ofPayload r.payload?))
      (lexemes .double (body r) ++ (Fragment.lexemes .double (.text "\x7d);\n\n") ++ k)) := by
  rcases payload_cases r with ⟨h, -⟩ | ⟨v, b, h, -⟩ | ⟨fs, b, h, -⟩ | ⟨t, h, -⟩
  · rw [body, h, BodyKind.ofPayload]
    exact (begins_text (by decide) (by decide)).append _
  · rw [body, h, BodyKind.ofPayload]
    exact begins_cons_text (by decide) (by decide) _ _
  · rw [body, h, BodyKind.ofPayload]
    exact begins_cons_text (by decide) (by decide) _ _
  · rw [body, h, BodyKind.ofPayload]
    exact (begins_text_append (by decide) (begins_literal _ _)).append _

theorem layout : FormLayout .double dialect body where
  readable := readable_dialect
  absent r h := by rw [body, h]
  json := ⟨[.text "  body: JSON.stringify("], "),\n", [], 1, by decide, by decide,
    fun r v h => by rw [body, h]⟩
  form := ⟨[.text "  body: new URLSearchParams([\n"], "    [", ", ", "],\n", "  ]),\n", by decide,
    by decide, by decide, fun r fs h => by rw [body, h]⟩
  raw := ⟨[.text "  body: "], [.text ",\n"], fun r t h => by rw [body, h]; rfl⟩

theorem body_cancel {r r' : Request} {k : List Lexeme}
    (h : lexemes .double (body r) ++ (Fragment.lexemes .double (.text "\x7d);\n\n") ++ k) =
      lexemes .double (body r') ++ (Fragment.lexemes .double (.text "\x7d);\n\n") ++ k)) :
    r.payload? = r'.payload? :=
  (layout.cancel (eq_of_begins distinct_bodyTag (begins_body r k) (h ▸ begins_body r' k)) h).1

theorem same_of_lexemes {r r' : Request}
    (h : lexemes .double (source r) = lexemes .double (source r')) : SameRequest r r' := by
  simp only [source, concat_cons, concat_nil, lexemes_append, lexemes_cons, lexemes_nil,
    Fragment.lexemes_literal, List.cons_append, List.nil_append, List.append_nil,
    List.append_cancel_left_eq, List.cons.injEq, Lexeme.literal.injEq,
    Option.some.injEq] at h
  obtain ⟨hurl, hmethod, h⟩ := h
  have hopen (r : Request) (k : List Lexeme) : ¬ Begins (front "  headers: \x7b\n")
      (lexemes .double (body r) ++ (Fragment.lexemes .double (.text "\x7d);\n\n") ++ k)) :=
    (begins_body r k).not_of_clash (clash_headers _)
  obtain ⟨hheaders, h⟩ := optional_cancel (selfDelimiting_header _ _ _) (by decide) (by decide)
    (by decide) (by decide) (hopen r _) (hopen r' _) h
  exact ⟨hurl, hheaders, hmethod, body_cancel h⟩

end JavaScript

namespace Ruby

theorem readable_dialect : dialect.Readable .single := by
  constructor <;> decide

def bodyTag : BodyKind → List (Option Char)
  | .absent => front "\nresponse"
  | .json => front "request.body = J"
  | .form => front "request.set_form"
  | .raw => front "request.body = " ++ [none]

theorem distinct_bodyTag : Distinct bodyTag :=
  distinct_of_all BodyKind.mem_all (by decide)

theorem clash_header (b : BodyKind) : Clash (bodyTag b) (front "request[") := by
  cases b <;> decide

/-- The text after the body. -/
def afterBody : String := "\nresponse = Net::HTTP.start(uri.hostname, uri.port, "

theorem begins_body (r : Request) (k : List Lexeme) :
    Begins (bodyTag (.ofPayload r.payload?))
      (lexemes .single (body r) ++ (Fragment.lexemes .single (.text afterBody) ++ k)) := by
  rcases payload_cases r with ⟨h, -⟩ | ⟨v, b, h, -⟩ | ⟨fs, b, h, -⟩ | ⟨t, h, -⟩
  · rw [body, h, BodyKind.ofPayload]
    exact (begins_text (by decide) (by decide)).append _
  · rw [body, h, BodyKind.ofPayload]
    exact begins_cons_text (by decide) (by decide) _ _
  · rw [body, h, BodyKind.ofPayload]
    exact begins_cons_text (by decide) (by decide) _ _
  · rw [body, h, BodyKind.ofPayload]
    exact (begins_text_append (by decide) (begins_literal _ _)).append _

theorem layout : FormLayout .single dialect body where
  readable := readable_dialect
  absent r h := by rw [body, h]
  json := ⟨[.text "request.body = JSON.generate("], ")\n", [], 0, by decide, by decide,
    fun r v h => by rw [body, h]⟩
  form := ⟨[.text "request.set_form_data(\n  [\n"], "    [", ", ", "],\n", "  ]\n)\n", by decide,
    by decide, by decide, fun r fs h => by rw [body, h]⟩
  raw := ⟨[.text "request.body = "], [.text "\n"], fun r t h => by rw [body, h]; rfl⟩

theorem body_cancel {r r' : Request} {k : List Lexeme}
    (h : lexemes .single (body r) ++ (Fragment.lexemes .single (.text afterBody) ++ k) =
      lexemes .single (body r') ++ (Fragment.lexemes .single (.text afterBody) ++ k)) :
    r.payload? = r'.payload? :=
  (layout.cancel (eq_of_begins distinct_bodyTag (begins_body r k) (h ▸ begins_body r' k)) h).1

def methodTag : Option StandardMethod → List (Option Char)
  | some m => front "request = Net::HTTP::" ++ front m.capitalName
  | none => front "request = Net::HTTPGeneric"

theorem distinct_methodTag : Distinct methodTag :=
  distinct_of_all StandardMethod.mem_choices (by decide)

theorem begins_construction (r : Request) (k : List Lexeme) :
    Begins (methodTag r.standardMethod?) (lexemes .single (construction r) ++ k) := by
  cases h : r.standardMethod? with
  | none =>
    rw [construction, h]
    exact begins_cons_text (by decide) (by decide) _ _
  | some m =>
    rw [construction, h]
    exact (begins_text_append (by decide)
      ((begins_text (m.markless_capitalName .single) (List.prefix_refl _)).append _)).append _

/-- The flag that tells whether the request has a body. -/
def flagTag : Bool → List (Option Char)
  | true => front "true"
  | false => front "false"

theorem distinct_flagTag : Distinct flagTag := by
  intro a b
  cases a <;> cases b <;> decide

theorem construction_cancel {r r' : Request} {k k' : List Lexeme}
    (h : lexemes .single (construction r) ++ k = lexemes .single (construction r') ++ k') :
    r.canonicalMethod = r'.canonicalMethod ∧ k = k' := by
  have hstandard := eq_of_begins distinct_methodTag (begins_construction r k)
    (h ▸ begins_construction r' k')
  cases hm : r.standardMethod? with
  | some m =>
    have hmethod := canonicalMethod_eq hstandard (by simp [hm])
    rw [construction, construction, ← hstandard, hm] at h
    exact ⟨hmethod, List.append_cancel_left h⟩
  | none =>
    rw [construction, construction, ← hstandard, hm] at h
    simp only [lexemes_cons, lexemes_nil, Fragment.lexemes_literal, List.cons_append,
      List.nil_append, List.append_nil, List.append_assoc, List.append_cancel_left_eq,
      List.cons.injEq, Lexeme.literal.injEq, Option.some.injEq] at h
    obtain ⟨hmethod, h⟩ := h
    have hflag (b : Bool) (k : List Lexeme) : Begins (flagTag b)
        (Fragment.lexemes .single (if b then "true" else "false") ++ k) := by
      cases b
      · exact (begins_text (by decide) (List.prefix_refl _)).append k
      · exact (begins_text (by decide) (List.prefix_refl _)).append k
    have hbody := eq_of_begins distinct_flagTag (hflag r.body.isSome _)
      (h ▸ hflag r'.body.isSome _)
    rw [hbody] at h
    refine ⟨canonicalMethod_eq hstandard fun _ => hmethod, ?_⟩
    exact List.append_cancel_left (List.append_cancel_left h)

/-- The imports, with and without that of JSON. -/
def importSource : Bool → Source
  | true => [.text "require 'net/http'\n", .text "require 'json'\n", .text "require 'uri'\n\n"]
  | false => [.text "require 'net/http'\n", .text "require 'uri'\n\n"]

theorem imports_eq (r : Request) : ∃ b, imports r = importSource b := by
  rcases payload_cases r with ⟨h, -⟩ | ⟨v, b, h, -⟩ | ⟨fs, b, h, -⟩ | ⟨t, h, -⟩
  · exact ⟨false, by rw [imports, h]; rfl⟩
  · exact ⟨true, by rw [imports, h]; rfl⟩
  · exact ⟨false, by rw [imports, h]; rfl⟩
  · exact ⟨false, by rw [imports, h]; rfl⟩

def importTag : Bool → List (Option Char)
  | true => front "require " ++ none :: (front "\nrequire " ++ none :: front "\nr")
  | false => front "require " ++ none :: (front "\nrequire " ++ none :: front "\n\n")

theorem distinct_importTag : Distinct importTag := by
  intro a b
  cases a <;> cases b <;> decide

theorem begins_importSource (b : Bool) :
    Begins (importTag b) (lexemes .single (importSource b)) := by
  cases b <;> decide

theorem imports_cancel {r r' : Request} {k k' : List Lexeme}
    (h : lexemes .single (imports r) ++ k = lexemes .single (imports r') ++ k') : k = k' := by
  obtain ⟨b, hb⟩ := imports_eq r
  obtain ⟨b', hb'⟩ := imports_eq r'
  rw [hb, hb'] at h
  have heq : b = b' := eq_of_begins distinct_importTag ((begins_importSource b).append k)
    (h ▸ (begins_importSource b').append k')
  rw [heq] at h
  exact List.append_cancel_left h

theorem same_of_lexemes {r r' : Request}
    (h : lexemes .single (source r) = lexemes .single (source r')) : SameRequest r r' := by
  simp only [source, concat_cons, concat_nil, lexemes_append, lexemes_cons, lexemes_nil,
    Fragment.lexemes_literal, List.cons_append, List.nil_append, List.append_nil] at h
  have h := imports_cancel h
  simp only [List.append_cancel_left_eq, List.cons.injEq, Lexeme.literal.injEq,
    Option.some.injEq] at h
  obtain ⟨hurl, h⟩ := h
  obtain ⟨hmethod, h⟩ := construction_cancel h
  have hclosed (r : Request) (k : List Lexeme) : ¬ Begins (front "request[")
      (lexemes .single (body r) ++ (Fragment.lexemes .single (.text afterBody) ++ k)) :=
    (begins_body r k).not_of_clash (clash_header _)
  obtain ⟨hheaders, h⟩ := forEach_cancel (selfDelimiting_header _ _ _) (by decide)
    (hclosed r _) (hclosed r' _) h
  exact ⟨hurl, hheaders, hmethod, body_cancel h⟩

end Ruby

end CurlCode

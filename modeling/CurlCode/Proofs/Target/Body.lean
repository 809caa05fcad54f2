import CurlCode.Proofs.Target.TextRecovery

/-!
The body in its program. The programs of requests that differ in their bodies alone differ in
one place: a body that is sent as text is one literal there, and a form that is taken apart is a
list of pairs (`body_as_given`).
-/
namespace CurlCode

open Source

/-! ### Bodies -/

namespace Payload

/-- The body is not taken apart: it has no format, or it is not what it calls itself. -/
def Unparsed (format : BodyFormat) (body : String) : Prop :=
  match format with
  | .json => Json.parse? body = none
  | .form => Form.decode? body = none
  | .multipart | .raw => True

theorem ofBody_unparsed {format : BodyFormat} {body : String} (h : Unparsed format body) :
    ofBody format body = .raw body := by
  cases format with
  | json => rw [ofBody, show Json.parse? body = none from h]
  | form => rw [ofBody, show Form.decode? body = none from h]
  | multipart => rfl
  | raw => rfl

end Payload

namespace Request

def withBody (r : Request) (body : String) : Request := { r with body := some body }

variable (r : Request) (body : String)

@[simp] theorem url_withBody : (r.withBody body).url = r.url := rfl
@[simp] theorem headers_withBody : (r.withBody body).headers = r.headers := rfl
@[simp] theorem body_withBody : (r.withBody body).body = some body := rfl
@[simp] theorem canonicalMethod_withBody :
    (r.withBody body).canonicalMethod = r.canonicalMethod := rfl
theorem payload?_withBody :
    (r.withBody body).payload? = some (Payload.ofBody r.facets.bodyFormat body) := rfl

/-- The body of such a request is no JSON. -/
def Plain : Prop := (Payload.ofBody r.facets.bodyFormat body).isJson = false

variable {r body}

theorem Plain.kind (h : r.Plain body) : (r.withBody body).kind = some false := by
  rw [Request.kind, payload?_withBody, Option.map_some, h]

theorem plain_of_unparsed (h : Payload.Unparsed r.facets.bodyFormat body) : r.Plain body := by
  rw [Plain, Payload.ofBody_unparsed h]
  rfl

theorem plain_of_form (h : r.facets.bodyFormat = .form) : r.Plain body := by
  rw [Plain, h, Payload.ofBody]
  split <;> rfl

end Request

/-! ### Sources with a place for the body -/

/-- Where `p` holds, `whole` is `part` between sources that are always the same. -/
def Around {α : Type} (p : α → Prop) (whole part : α → Source) : Prop :=
  ∃ before after : Source, ∀ a, p a → whole a = before ++ part a ++ after

namespace Around

variable {α : Type} {p p' : α → Prop} {whole part core : α → Source}

theorem mono (h : Around p whole part) (hp : ∀ a, p' a → p a) : Around p' whole part := by
  obtain ⟨before, after, h⟩ := h
  exact ⟨before, after, fun a ha => h a (hp a ha)⟩

theorem trans (h : Around p whole part) (k : Around p part core) : Around p whole core := by
  obtain ⟨before, after, h⟩ := h
  obtain ⟨before', after', k⟩ := k
  refine ⟨before ++ before', after' ++ after, fun a hp => ?_⟩
  rw [h a hp, k a hp]
  simp only [List.append_assoc]

end Around

theorem concat_around (before : List Source) (part : Source) (after : List Source) :
    concat (before ++ part :: after) = concat before ++ part ++ concat after := by
  simp [concat]

theorem cons_around (before : Source) (body : String) (after : Source) :
    before ++ .literal body :: after = before ++ [.literal body] ++ after := by
  simp

/-! ### Forms -/

/-- How a list of fields is written. -/
structure PairStyle where
  opening : String
  before : String
  between : String
  after : String
  closing : String

namespace PairStyle

def source (st : PairStyle) (fields : List Field) : Source :=
  .concat [[.text st.opening], .forEach fields fun f =>
    [.text st.before, .literal f.name, .text st.between, .literal f.value, .text st.after],
    [.text st.closing]]

/-- Name and value of every field are literals side by side. -/
def lexemes (st : PairStyle) (fields : List Field) : List Lexeme :=
  plain st.opening ++ (fields.flatMap fun f => plain st.before ++ .literal (some f.name) ::
    (plain st.between ++ .literal (some f.value) :: plain st.after)) ++ plain st.closing

/-- Its texts hold no mark of a literal. -/
structure Markless (q : Quoting) (st : PairStyle) : Prop where
  opening : q.mark ∉ st.opening.toList
  before : q.mark ∉ st.before.toList
  between : q.mark ∉ st.between.toList
  after : q.mark ∉ st.after.toList
  closing : q.mark ∉ st.closing.toList

theorem lexemes_source {q : Quoting} {st : PairStyle} (h : st.Markless q) (fields : List Field) :
    Source.lexemes q (st.source fields) = st.lexemes fields := by
  simp only [source, lexemes, concat_cons, concat_nil, lexemes_append, lexemes_forEach,
    lexemes_cons, lexemes_nil, Fragment.lexemes_literal, Fragment.lexemes_text h.opening,
    Fragment.lexemes_text h.before, Fragment.lexemes_text h.between,
    Fragment.lexemes_text h.after, Fragment.lexemes_text h.closing, List.cons_append,
    List.nil_append, List.append_nil, List.append_assoc]

/-- The literals are names and values, in turn. -/
theorem decoded_lexemes (st : PairStyle) (fields : List Field) :
    decoded (st.lexemes fields) = fields.flatMap fun f => [some f.name, some f.value] := by
  simp only [lexemes, decoded_append, decoded_plain, List.nil_append, List.append_nil]
  induction fields with
  | nil => rfl
  | cons f fields ih => simp [ih]

end PairStyle

namespace Request

/-- The body of such a request is a form, and it has these fields. -/
def HasFields (r : Request) (body : String) (fields : List Field) : Prop :=
  r.facets.bodyFormat = .form ∧ Form.decode? body = some fields

theorem HasFields.payload? {r : Request} {body : String} {fields : List Field}
    (h : r.HasFields body fields) : (r.withBody body).payload? = some (.form fields) := by
  rw [payload?_withBody, h.1, Payload.ofBody, h.2]

theorem HasFields.plain {r : Request} {body : String} {fields : List Field}
    (h : r.HasFields body fields) : r.Plain body := plain_of_form h.1

end Request

/-! ### Layouts of bodies -/

section

variable {r : Request} {source body : Request → Source}
  (hsource : Around r.Plain (fun b => source (r.withBody b)) fun b => body (r.withBody b))
include hsource

/-- A body that is a literal if it is not taken apart. -/
theorem around_of_raw (hbody : ∃ before after : Source, ∀ r t, r.payload? = some (.raw t) →
      body r = before ++ .literal t :: after) :
    Around (Payload.Unparsed r.facets.bodyFormat) (fun b => source (r.withBody b))
      fun b => [.literal b] := by
  obtain ⟨before, after, hbody⟩ := hbody
  refine (hsource.mono fun _ => Request.plain_of_unparsed).trans ?_
  refine ⟨before, after, fun b hb => ?_⟩
  have hpayload : (r.withBody b).payload? = some (.raw b) := by
    rw [Request.payload?_withBody, Payload.ofBody_unparsed hb]
  exact (hbody _ b hpayload).trans (cons_around before b after)

/-- A body that is a literal if it is no JSON. -/
theorem around_of_text (hbody : ∃ before after : Source, ∀ r p b, r.payload? = some p →
      p.isJson = false → r.body = some b → body r = before ++ .literal b :: after) :
    Around r.Plain (fun b => source (r.withBody b)) fun b => [.literal b] := by
  obtain ⟨before, after, hbody⟩ := hbody
  refine hsource.trans ⟨before, after, fun b hb => ?_⟩
  exact (hbody _ _ b (r.payload?_withBody b) hb rfl).trans (cons_around before b after)

/-- A body that is a list of fields if it is a form. -/
theorem around_of_form (style : List Field → PairStyle)
    (hbody : ∃ before after : Source, ∀ r fields, r.payload? = some (.form fields) →
      body r = before ++ (style fields).source fields ++ after) :
    Around (fun x : String × List Field => r.HasFields x.1 x.2)
      (fun x => source (r.withBody x.1)) fun x => (style x.2).source x.2 := by
  have hpairs : Around (fun x : String × List Field => r.HasFields x.1 x.2)
      (fun x => source (r.withBody x.1)) fun x => body (r.withBody x.1) := by
    obtain ⟨before, after, hsource⟩ := hsource
    exact ⟨before, after, fun x hx => hsource x.1 hx.plain⟩
  obtain ⟨before, after, hbody⟩ := hbody
  exact hpairs.trans ⟨before, after, fun x hx => hbody _ x.2 hx.payload?⟩

end

/-! ### The languages -/

variable (r : Request)

namespace Python

theorem arguments_plain {r : Request} {body : String} (h : r.Plain body) :
    arguments (r.withBody body) = .concat [["url"],
      if r.headers.isEmpty then [] else [", headers=headers"], [", data=data"]] := by
  rw [arguments, Request.payload?_withBody]
  cases hp : Payload.ofBody r.facets.bodyFormat body with
  | json v => simp [Request.Plain, hp, Payload.isJson] at h
  | form fields => rfl
  | raw text => rfl

theorem around_body :
    Around r.Plain (fun b => source (r.withBody b)) fun b => body (r.withBody b) := by
  have hheaders (b : String) : headers (r.withBody b) = headers r := rfl
  have hstandard (b : String) : (r.withBody b).standardMethod? = r.standardMethod? := rfl
  have hmethod (b : String) : (r.withBody b).method = r.method := rfl
  -- The arguments of the call name the body, but in one way for all that is no JSON.
  simp only [Around, source, call, hheaders, hstandard, hmethod, Request.url_withBody]
  exact ⟨_, _, fun b hb => by rw [arguments_plain hb]; exact concat_around [_, _] _ [_, _, _]⟩

theorem around_text : Around (Payload.Unparsed r.facets.bodyFormat)
    (fun b => source (r.withBody b)) fun b => [.literal b] :=
  around_of_raw (around_body r)
    ⟨[.text "\ndata = "], [.text "\n"], fun r t h => by rw [body, h]; rfl⟩

def dictionary : PairStyle := ⟨"\x7b\n", "    ", ": ", ",\n", "\x7d"⟩

def tuples : PairStyle := ⟨"[\n", "    (", ", ", "),\n", "]"⟩

/-- A dictionary cannot hold a name twice. -/
def pairStyle (fields : List Field) : PairStyle :=
  if (fields.map Field.name).Nodup then dictionary else tuples

theorem form_eq (fields : List Field) : form fields = (pairStyle fields).source fields := by
  rw [form, pairStyle]
  split <;> rfl

theorem around_pairs : Around (fun x : String × List Field => r.HasFields x.1 x.2)
    (fun x => source (r.withBody x.1)) fun x => (pairStyle x.2).source x.2 :=
  around_of_form (around_body r) pairStyle ⟨[.text "\ndata = "], [.text "\n"], fun r fields h => by
    rw [body, h, ← form_eq]
    simp⟩

end Python

namespace JavaScript

theorem around_body :
    Around r.Plain (fun b => source (r.withBody b)) fun b => body (r.withBody b) := by
  have hheaders (b : String) : headers (r.withBody b) = headers r := rfl
  simp only [Around, source, hheaders, Request.url_withBody, Request.canonicalMethod_withBody]
  exact ⟨_, _, fun b _ => concat_around [_, _] _ [_]⟩

theorem around_text : Around (Payload.Unparsed r.facets.bodyFormat)
    (fun b => source (r.withBody b)) fun b => [.literal b] :=
  around_of_raw (around_body r) layout.raw

def pairStyle : PairStyle :=
  ⟨"  body: new URLSearchParams([\n", "    [", ", ", "],\n", "  ]),\n"⟩

theorem around_pairs : Around (fun x : String × List Field => r.HasFields x.1 x.2)
    (fun x => source (r.withBody x.1)) fun x => pairStyle.source x.2 :=
  around_of_form (around_body r) (fun _ => pairStyle) ⟨[], [], fun r fields h => by
    rw [body, h, List.nil_append, List.append_nil]
    rfl⟩

end JavaScript

namespace Axios

theorem around_body :
    Around r.Plain (fun b => source (r.withBody b)) fun b => body (r.withBody b) := by
  have hheaders (b : String) : headers (r.withBody b) = headers r := rfl
  have hmethod (b : String) : method (r.withBody b) = method r := rfl
  simp only [Around, source, hheaders, hmethod, Request.url_withBody]
  exact ⟨_, _, fun b _ => concat_around [_, _] _ [_]⟩

theorem around_text : Around (Payload.Unparsed r.facets.bodyFormat)
    (fun b => source (r.withBody b)) fun b => [.literal b] :=
  around_of_raw (around_body r)
    ⟨[.text "    data: "], [.text ",\n"], fun r t h => by rw [body, h]; rfl⟩

def pairStyle : PairStyle :=
  ⟨"    data: new URLSearchParams([\n", "      [", ", ", "],\n", "    ]),\n"⟩

theorem around_pairs : Around (fun x : String × List Field => r.HasFields x.1 x.2)
    (fun x => source (r.withBody x.1)) fun x => pairStyle.source x.2 :=
  around_of_form (around_body r) (fun _ => pairStyle) ⟨[], [], fun r fields h => by
    rw [body, h, List.nil_append, List.append_nil]
    rfl⟩

end Axios

namespace Ruby

theorem around_body :
    Around r.Plain (fun b => source (r.withBody b)) fun b => body (r.withBody b) := by
  have himports {b : String} (hb : r.Plain b) :
      imports (r.withBody b) = importSource false := by
    rw [imports, Request.payload?_withBody]
    cases hp : Payload.ofBody r.facets.bodyFormat b with
    | json v => simp [Request.Plain, hp, Payload.isJson] at hb
    | form fields => rfl
    | raw text => rfl
  -- The class of another method asks whether there is a body, so some body has to stand here.
  have hconstruction (b : String) :
      construction (r.withBody b) = construction (r.withBody "") := rfl
  simp only [Around, source, hconstruction, Request.url_withBody, Request.headers_withBody]
  exact ⟨_, _, fun b hb => by rw [himports hb]; exact concat_around [_, _, _, _] _ [_]⟩

theorem around_text : Around (Payload.Unparsed r.facets.bodyFormat)
    (fun b => source (r.withBody b)) fun b => [.literal b] :=
  around_of_raw (around_body r) layout.raw

def pairStyle : PairStyle :=
  ⟨"request.set_form_data(\n  [\n", "    [", ", ", "],\n", "  ]\n)\n"⟩

theorem around_pairs : Around (fun x : String × List Field => r.HasFields x.1 x.2)
    (fun x => source (r.withBody x.1)) fun x => pairStyle.source x.2 :=
  around_of_form (around_body r) (fun _ => pairStyle) ⟨[], [], fun r fields h => by
    rw [body, h, List.nil_append, List.append_nil]
    rfl⟩

end Ruby

namespace Go

theorem around_setup :
    Around r.Plain (fun b => source (r.withBody b)) fun b => setup (r.withBody b) := by
  -- The imports and the reader depend on the kind of the body.
  have hreader {b : String} (hb : r.Plain b) : reader (r.withBody b) = readerOf (some false) := by
    rw [(packages_eq _).2, hb.kind]
  have hpackages {b : String} (hb : r.Plain b) :
      packages (r.withBody b) = packagesOf (some false) := by
    rw [(packages_eq _).1, hb.kind]
  simp only [Around, source, Request.url_withBody, Request.headers_withBody,
    Request.canonicalMethod_withBody]
  exact ⟨_, _, fun b hb => by
    rw [hreader hb, hpackages hb]; exact concat_around [_, _, _] _ [_, _, _]⟩

theorem around_text :
    Around r.Plain (fun b => source (r.withBody b)) fun b => [.literal b] :=
  around_of_text (around_setup r) layout.text

end Go

namespace Rust

theorem around_body :
    Around r.Plain (fun b => source (r.withBody b)) fun b => body (r.withBody b) := by
  have hmethod (b : String) : method (r.withBody b) = method r := rfl
  simp only [Around, source, hmethod, Request.url_withBody, Request.headers_withBody]
  exact ⟨_, _, fun b _ => concat_around [_, _, _, _] _ [_]⟩

theorem around_text :
    Around r.Plain (fun b => source (r.withBody b)) fun b => [.literal b] :=
  around_of_text (around_body r) layout.text

end Rust

namespace Php

theorem around_body :
    Around r.Plain (fun b => source (r.withBody b)) fun b => body (r.withBody b) := by
  have hheaders (b : String) : headers (r.withBody b) = headers r := rfl
  simp only [Around, source, hheaders, Request.url_withBody, Request.canonicalMethod_withBody]
  exact ⟨_, _, fun b _ => concat_around [_, _] _ [_]⟩

theorem around_text :
    Around r.Plain (fun b => source (r.withBody b)) fun b => [.literal b] :=
  around_of_text (around_body r) layout.text

end Php

namespace Swift

theorem around_body :
    Around (fun _ => True) (fun b => source (r.withBody b)) fun b => body (r.withBody b) := by
  simp only [Around, source, Request.url_withBody, Request.headers_withBody,
    Request.canonicalMethod_withBody]
  exact ⟨_, _, fun b _ => concat_around [_, _] _ [_]⟩

/-- The body is no JSON container. -/
def Flat (body : String) : Prop :=
  ∀ v, Payload.ofBody r.facets.bodyFormat body = .json v → v.isContainer = false

theorem body_of_flat {r : Request} {b : String} (h : Flat r b) :
    body (r.withBody b) = textBody (r.withBody b) := by
  rw [body, Request.payload?_withBody]
  cases hp : Payload.ofBody r.facets.bodyFormat b with
  | json v => simp [h v hp]
  | form fields => rfl
  | raw text => rfl

theorem around_text :
    Around (Flat r) (fun b => source (r.withBody b)) fun b => [.literal b] := by
  refine ((around_body r).mono fun _ _ => trivial).trans ?_
  exact ⟨[.text "request.httpBody = Data("], [.text ".utf8)\n"], fun b hb => body_of_flat hb⟩

end Swift

namespace Java

theorem around_method :
    Around (fun _ => True) (fun b => source (r.withBody b)) fun b => method (r.withBody b) := by
  simp only [Around, source, Request.url_withBody, Request.headers_withBody]
  exact ⟨_, _, fun b _ => concat_around [_] _ [_, _]⟩

theorem around_text :
    Around (fun _ => True) (fun b => source (r.withBody b)) fun b => [.literal b] := by
  refine (around_method r).trans ?_
  simp only [Around, method, Request.body_withBody, Request.canonicalMethod_withBody]
  exact ⟨_, _, fun b _ => cons_around [_, _, _] b [_]⟩

end Java

namespace CSharp

theorem around_text :
    Around (fun _ => True) (fun b => source (r.withBody b)) fun b => [.literal b] := by
  have hmethod (b : String) : method (r.withBody b) = method r := rfl
  -- Where a header goes depends on there being a body, not on its text.
  have hheader (b : String) : header (r.withBody b) = header (r.withBody "") := rfl
  have hmedia (b : String) : mediaType (r.withBody b) = mediaType r := rfl
  have hsource : Around (fun _ => True) (fun b => source (r.withBody b))
      fun b => body (r.withBody b) := by
    simp only [Around, source, hmethod, hheader, Request.url_withBody, Request.headers_withBody,
      Request.body_withBody, Option.isSome_some]
    exact ⟨_, _, fun b _ => concat_around [_, _, _, _, _] _ [_, _]⟩
  refine hsource.trans ?_
  simp only [Around, body, hmedia, Request.body_withBody]
  exact ⟨_, _, fun b _ => cons_around [_] b [_, _, _]⟩

end CSharp

namespace Language

/-- The bodies that are sent as a text: all that are not taken apart, forms where no list of
fields is written, and JSON where no data are written, in Swift where they are no container. -/
def SendsText (l : Language) (format : BodyFormat) (body : String) : Prop :=
  Payload.Unparsed format body ∨
    match format with
    | .form => l ∈ [.go, .rust, .php, .java, .cSharp, .swift]
    | .json => l ∈ [.java, .cSharp] ∨
        l = .swift ∧ ∃ v, Json.parse? body = some v ∧ v.isContainer = false
    | .multipart | .raw => False

/-- How a form is written where it is a list of fields. -/
def pairStyle? : Language → List Field → Option PairStyle
  | .python, fields => some (Python.pairStyle fields)
  | .javaScript, _ => some JavaScript.pairStyle
  | .axios, _ => some Axios.pairStyle
  | .ruby, _ => some Ruby.pairStyle
  | .go, _ | .rust, _ | .php, _ | .java, _ | .cSharp, _ | .swift, _ => none

theorem unparsed_of_sendsText {l : Language} {format : BodyFormat} {body : String}
    (hl : l ∈ [.python, .javaScript, .axios, .ruby]) (h : l.SendsText format body) :
    Payload.Unparsed format body := by
  rcases h with h | h
  · exact h
  · cases format <;> cases l <;> simp_all

theorem plain_of_sendsText {l : Language} {r : Request} {body : String}
    (hl : l ∈ [.go, .rust, .php]) (h : l.SendsText r.facets.bodyFormat body) :
    r.Plain body := by
  rcases h with h | h
  · exact Request.plain_of_unparsed h
  · cases hf : r.facets.bodyFormat with
    | form => exact Request.plain_of_form hf
    | json => cases l <;> simp_all
    | multipart => rw [hf] at h; exact h.elim
    | raw => rw [hf] at h; exact h.elim

theorem flat_of_sendsText {r : Request} {body : String}
    (h : swift.SendsText r.facets.bodyFormat body) : Swift.Flat r body := by
  intro v hv
  rcases h with h | h
  · rw [Payload.ofBody_unparsed h] at hv
    cases hv
  · cases hf : r.facets.bodyFormat with
    | form =>
      rw [hf, Payload.ofBody] at hv
      split at hv <;> cases hv
    | json =>
      rw [hf] at h
      obtain hl | ⟨-, w, hw, hcontainer⟩ := h
      · simp at hl
      · rw [hf, Payload.ofBody, hw] at hv
        cases hv
        exact hcontainer
    | multipart => rw [hf] at h; exact h.elim
    | raw => rw [hf] at h; exact h.elim

theorem around_text (l : Language) : Around (l.SendsText r.facets.bodyFormat)
    (fun b => l.source (r.withBody b)) fun b => [.literal b] := by
  cases l with
  | python => exact (Python.around_text r).mono fun _ => unparsed_of_sendsText (by decide)
  | javaScript =>
    exact (JavaScript.around_text r).mono fun _ => unparsed_of_sendsText (by decide)
  | axios => exact (Axios.around_text r).mono fun _ => unparsed_of_sendsText (by decide)
  | ruby => exact (Ruby.around_text r).mono fun _ => unparsed_of_sendsText (by decide)
  | go => exact (Go.around_text r).mono fun _ => plain_of_sendsText (by decide)
  | rust => exact (Rust.around_text r).mono fun _ => plain_of_sendsText (by decide)
  | php => exact (Php.around_text r).mono fun _ => plain_of_sendsText (by decide)
  | java => exact (Java.around_text r).mono fun _ _ => trivial
  | cSharp => exact (CSharp.around_text r).mono fun _ _ => trivial
  | swift => exact (Swift.around_text r).mono fun _ => flat_of_sendsText

theorem around_some_style {r : Request} {source : Request → Source}
    {style : List Field → PairStyle}
    (h : Around (fun x : String × List Field => r.HasFields x.1 x.2)
      (fun x => source (r.withBody x.1)) fun x => (style x.2).source x.2) :
    ∃ before after : Source, ∀ body fields st, r.HasFields body fields →
      some (style fields) = some st →
        source (r.withBody body) = before ++ st.source fields ++ after := by
  obtain ⟨before, after, h⟩ := h
  refine ⟨before, after, fun body fields st hfields hst => ?_⟩
  cases hst
  exact h (body, fields) hfields

theorem around_pairs (l : Language) : ∃ before after : Source, ∀ body fields style,
    r.HasFields body fields → l.pairStyle? fields = some style →
      l.source (r.withBody body) = before ++ style.source fields ++ after := by
  cases l with
  | python => exact around_some_style (Python.around_pairs r)
  | javaScript => exact around_some_style (JavaScript.around_pairs r)
  | axios => exact around_some_style (Axios.around_pairs r)
  | ruby => exact around_some_style (Ruby.around_pairs r)
  | go | rust | php | java | cSharp | swift => exact ⟨[], [], fun _ _ _ _ h => nomatch h⟩

theorem markless_pairStyle {l : Language} {fields : List Field} {style : PairStyle}
    (h : l.pairStyle? fields = some style) : style.Markless l.quoting := by
  cases l with
  | python =>
    cases h
    rw [Python.pairStyle]
    split <;> constructor <;> decide
  | javaScript | axios | ruby =>
    cases h
    constructor <;> decide
  | go | rust | php | java | cSharp | swift => cases h

/-- All that a program has of its body is one literal with the whole text of it, where the body
is sent as a text, and the list of its fields in their order, where it is sent as one. -/
theorem body_as_given (l : Language) (r : Request) :
    (∃ before after : List Lexeme, ∀ body, l.SendsText r.facets.bodyFormat body →
      l.lexemes (r.withBody body) = before ++ .literal (some body) :: after) ∧
    ∃ before after : List Lexeme, ∀ body fields style, r.HasFields body fields →
      l.pairStyle? fields = some style →
        l.lexemes (r.withBody body) = before ++ style.lexemes fields ++ after ∧
        decoded (style.lexemes fields) = fields.flatMap fun f => [some f.name, some f.value] := by
  constructor
  · obtain ⟨before, after, h⟩ := around_text r l
    refine ⟨Source.lexemes l.quoting before, Source.lexemes l.quoting after, fun body hbody => ?_⟩
    have hsource : l.source (r.withBody body) = before ++ [.literal body] ++ after := h body hbody
    rw [lexemes_eq, hsource, lexemes_append, lexemes_append, lexemes_cons, lexemes_nil,
      Fragment.lexemes_literal]
    simp only [List.append_assoc, List.cons_append, List.nil_append]
  · obtain ⟨before, after, h⟩ := around_pairs r l
    refine ⟨Source.lexemes l.quoting before, Source.lexemes l.quoting after,
      fun body fields style hfields hstyle => ⟨?_, style.decoded_lexemes fields⟩⟩
    rw [lexemes_eq, h body fields style hfields hstyle, lexemes_append, lexemes_append,
      PairStyle.lexemes_source (markless_pairStyle hstyle)]

/-- A name that repeats, and bytes that are no text. -/
theorem body_as_given_tuples :
    let r : Request := ⟨"POST", "http://a/",
      [⟨"Content-Type", "application/x-www-form-urlencoded"⟩], none⟩
    r.HasFields "a=1&a=%22" [⟨"a", "1"⟩, ⟨"a", "\""⟩] ∧
    (∃ before after, python.lexemes (r.withBody "a=1&a=%22") =
      before ++ Python.tuples.lexemes [⟨"a", "1"⟩, ⟨"a", "\""⟩] ++ after) ∧
    python.SendsText r.facets.bodyFormat "a=%FF" ∧
    ∃ before after, python.lexemes (r.withBody "a=%FF") =
      before ++ .literal (some "a=%FF") :: after := by
  intro r
  have hformat : r.facets.bodyFormat = .form := by decide
  have hfields : r.HasFields "a=1&a=%22" [⟨"a", "1"⟩, ⟨"a", "\""⟩] := ⟨hformat, by decide⟩
  have htext : python.SendsText r.facets.bodyFormat "a=%FF" := by
    have hbytes : Form.decode? "a=%FF" = none := by decide
    rw [hformat]
    exact .inl hbytes
  obtain ⟨⟨before, after, h⟩, before', after', h'⟩ := body_as_given .python r
  exact ⟨hfields, ⟨before', after', (h' _ _ Python.tuples hfields rfl).1⟩, htext,
    before, after, h _ htext⟩

end Language

end CurlCode

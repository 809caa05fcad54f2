import CurlCode.Proofs.Target.Language

/-!
The literals of a program, in order: those of the request stand among the constants of the
language's template.
-/
namespace CurlCode

open Source

namespace Language

/-- The method, where the language has it as a string. -/
def methodLiterals : Language → Request → List String
  | .python, r | .rust, r | .ruby, r | .cSharp, r =>
    if r.standardMethod?.isSome then [] else [r.method]
  | .axios, r =>
    match r.standardMethod? with
    | some m => [m.lowerName]
    | none => [r.method]
  | .java, r =>
    if r.body = none ∧ (r.standardMethod? = some .get ∨ r.standardMethod? = some .delete) then []
    else [r.canonicalMethod]
  | .javaScript, r | .go, r | .php, r | .swift, r => [r.canonicalMethod]

def headerLiterals : Language → Request → List String
  | .php, r => r.headers.map fun h => h.name ++ ": " ++ h.value
  | .swift, r => r.headers.flatMap fun h => [h.value, h.name]
  | .cSharp, r => r.headers.flatMap fun h =>
    if r.body.isSome ∧ CSharp.isContentHeader h.name then [h.name, h.name, h.value]
    else [h.name, h.value]
  | .python, r | .javaScript, r | .axios, r | .go, r | .rust, r | .ruby, r | .java, r =>
    r.headers.flatMap fun h => [h.name, h.value]

/-- The body taken apart, or in one piece where the language has no better way. -/
def bodyLiterals : Language → Request → List String
  | .python, r | .javaScript, r | .axios, r | .ruby, r =>
    match r.payload? with
    | some (.json v) => v.strings
    | some (.form fields) => fields.flatMap fun f => [f.name, f.value]
    | _ => r.body.toList
  | .go, r | .rust, r | .php, r =>
    match r.payload? with
    | some (.json v) => v.strings
    | _ => r.body.toList
  | .swift, r =>
    match r.payload? with
    | some (.json v) => if v.isContainer then v.strings else r.body.toList
    | _ => r.body.toList
  | .java, r | .cSharp, r => r.body.toList

/-- The constants of the template that stand before the literals of the request. -/
def constantsBefore : Language → Request → List String
  | .axios, _ => ["axios"]
  | .go, r => Go.packages r
  | .ruby, r =>
    match r.payload? with
    | some (.json _) => ["net/http", "json", "uri"]
    | _ => ["net/http", "uri"]
  | .python, _ | .javaScript, _ | .rust, _ | .php, _ | .java, _ | .cSharp, _ | .swift, _ => []

/-- Those that stand after them. -/
def constantsAfter : Language → List String
  | .rust => ["\x7b\x7d", "\x7b\x7d"]
  | .ruby => ["https"]
  | .python | .javaScript | .axios | .go | .php | .java | .cSharp | .swift => []

/-- The literals that come from the request, in the order of the template. -/
def ownLiterals (l : Language) (r : Request) : List String :=
  let method := l.methodLiterals r
  let headers := l.headerLiterals r
  let body := l.bodyLiterals r
  match l with
  | .python => [r.url] ++ headers ++ body ++ method
  | .javaScript | .php | .ruby | .swift => [r.url] ++ method ++ headers ++ body
  | .axios => method ++ [r.url] ++ headers ++ body
  | .go => body ++ method ++ [r.url] ++ headers
  | .rust => method ++ [r.url] ++ headers ++ body
  | .java => [r.url] ++ method ++ body ++ headers
  | .cSharp =>
    method ++ [r.url] ++ body ++ (if r.body.isSome then [CSharp.mediaType r] else []) ++ headers

def literals (l : Language) (r : Request) : List String :=
  l.constantsBefore r ++ l.ownLiterals r ++ l.constantsAfter

end Language

/-! ### Sources with constants in their texts -/

namespace Source

/-- The source closes its literals, which stand for these strings. -/
structure Reads (q : Quoting) (s : Source) (strings : List String) : Prop where
  closed : Closed q s
  decoded : decoded (lexemes q s) = strings.map some

theorem Markless.reads {q : Quoting} {s : Source} (h : Markless q s) : Reads q s (literals s) :=
  ⟨h.closed, h.decoded⟩

end Source

/-- A text with one constant in it. -/
theorem Fragment.reads_constant {q : Quoting} {t : String} (before constant after : String)
    (ht : t = before ++ q.quote constant ++ after) (hbefore : q.mark ∉ before.toList)
    (hafter : q.mark ∉ after.toList) :
    Closed q (.text t) ∧ decoded (lexemes q (.text t)) = [some constant] := by
  obtain ⟨hb, hb'⟩ := lexemes_of_not_mem hbefore
  obtain ⟨ha, ha'⟩ := lexemes_of_not_mem hafter
  obtain ⟨hq, hq'⟩ := CurlCode.lexemes_literal q constant.toList
  have hlist : t.toList = before.toList ++ q.literal constant.toList ++ after.toList := by
    simp [ht, Quoting.quote]
  constructor
  · simp [Closed, hlist, Place.after_append, hb, hq, ha]
  · rw [lexemes, hlist, Place.lexemes_append, Place.lexemes_append, Place.after_append, hb, hb',
      hq, hq', ha', String.ofList_toList, ← plain, ← plain]
    simp

namespace Source

@[simp] theorem literals_forEach (items : List α) (part : α → Source) :
    literals (forEach items part) = items.flatMap fun a => literals (part a) := by
  induction items with
  | nil => rfl
  | cons a items ih => simp [ih]

end Source

/-! ### The languages -/

theorem StandardMethod.markless_name (q : Quoting) (m : StandardMethod) :
    q.mark ∉ m.name.toList := by cases q <;> cases m <;> decide

theorem StandardMethod.markless_lowerName (q : Quoting) (m : StandardMethod) :
    q.mark ∉ m.lowerName.toList := by cases q <;> cases m <;> decide

theorem StandardMethod.markless_capitalName (q : Quoting) (m : StandardMethod) :
    q.mark ∉ m.capitalName.toList := by cases q <;> cases m <;> decide

/-- A body that is not taken apart is the payload's text. -/
theorem body_of_raw {r : Request} {t : String} (h : r.payload? = some (.raw t)) :
    r.body = some t := by
  cases hb : r.body with
  | none => simp [Request.payload?, hb] at h
  | some b =>
    simp only [Request.payload?, hb, Option.map_some, Option.some.injEq, Payload.ofBody] at h
    split at h
    · split at h <;> simp_all
    · split at h <;> simp_all
    · simp_all
    · simp_all

theorem body_of_none {r : Request} (h : r.payload? = none) : r.body = none := by
  simpa [Request.payload?] using h

/-- A request with a payload has a body. -/
theorem body_of_payload? {r : Request} {p : Payload} (h : r.payload? = some p) :
    ∃ b, r.body = some b := by
  cases hb : r.body with
  | some b => exact ⟨b, rfl⟩
  | none => simp [Request.payload?, hb] at h

/-- The kinds of payload, each with the body that it comes from. -/
theorem payload_cases (r : Request) :
    (r.payload? = none ∧ r.body = none) ∨
    (∃ v b, r.payload? = some (.json v) ∧ r.body = some b) ∨
    (∃ fs b, r.payload? = some (.form fs) ∧ r.body = some b) ∨
    ∃ t, r.payload? = some (.raw t) ∧ r.body = some t := by
  cases h : r.payload? with
  | none => exact .inl ⟨rfl, body_of_none h⟩
  | some p =>
    obtain ⟨b, hb⟩ := body_of_payload? h
    cases p with
    | json v => exact .inr (.inl ⟨v, b, rfl, hb⟩)
    | form fs => exact .inr (.inr (.inl ⟨fs, b, rfl, hb⟩))
    | raw t => exact .inr (.inr (.inr ⟨t, rfl, body_of_raw h⟩))

namespace Python

theorem markless_dialect : dialect.Markless .double := by decide

theorem markless_source (r : Request) : Markless .double (source r) := by
  have hjson := Json.markless_source markless_dialect
  have hheaders : Markless .double (headers r) := by
    rw [headers]
    split <;> simp
  have hform (fs : List Field) : Markless .double (form fs) := by
    rw [form]
    split <;> simp
  have hbody : Markless .double (body r) := by
    rw [body]
    split <;> simp [hjson, hform]
  have harguments : Markless .double (arguments r) := by
    rw [arguments]
    split <;> split <;> simp
  have hcall : Markless .double (call r) := by
    rw [call]
    split
    · next m _ =>
      have hm : '"' ∉ m.lowerName.toList := m.markless_lowerName .double
      simp [harguments, hm]
    · simp [harguments]
  simp only [source, concat_cons, concat_nil, markless_append, markless_text, markless_literal,
    markless_nil, and_true, true_and, hheaders, hbody, hcall]
  and_intros <;> exact not_mem_toList (by decide)

theorem literals_source (r : Request) :
    Source.literals (source r) = Language.python.literals r := by
  have hheaders : Source.literals (headers r) = Language.python.headerLiterals r := by
    cases h : r.headers <;> simp [headers, Language.headerLiterals, h]
  have hform (fs : List Field) :
      Source.literals (form fs) = fs.flatMap fun f => [f.name, f.value] := by
    rw [form]
    split <;> simp
  have hbody : Source.literals (body r) = Language.python.bodyLiterals r := by
    rcases payload_cases r with ⟨h, hb⟩ | ⟨v, b, h, -⟩ | ⟨fs, b, h, -⟩ | ⟨t, h, hb⟩
    · simp [body, Language.bodyLiterals, h, hb]
    · simp [body, Language.bodyLiterals, h, Json.literals_source]
    · simp [body, Language.bodyLiterals, h, hform]
    · simp [body, Language.bodyLiterals, h, hb]
  have hargs : Source.literals (arguments r) = [] := by
    rw [arguments]
    split <;> split <;> simp
  have hcall : Source.literals (call r) = Language.python.methodLiterals r := by
    cases h : r.standardMethod? <;> simp [call, Language.methodLiterals, h, hargs]
  simp [source, Language.literals, Language.ownLiterals, Language.constantsBefore,
    Language.constantsAfter, hheaders, hbody, hcall]

end Python

namespace JavaScript

theorem markless_dialect : dialect.Markless .double := by decide

theorem markless_source (r : Request) : Markless .double (source r) := by
  have hjson := Json.markless_source markless_dialect
  have hheaders : Markless .double (headers r) := by
    rw [headers]
    split <;> simp
  have hbody : Markless .double (body r) := by
    rw [body]
    split <;> simp [hjson]
  simp only [source, concat_cons, concat_nil, markless_append, markless_text, markless_literal,
    markless_nil, and_true, true_and, hheaders, hbody]
  and_intros <;> exact not_mem_toList (by decide)

theorem literals_source (r : Request) :
    Source.literals (source r) = Language.javaScript.literals r := by
  have hheaders : Source.literals (headers r) = Language.javaScript.headerLiterals r := by
    cases h : r.headers <;> simp [headers, Language.headerLiterals, h]
  have hbody : Source.literals (body r) = Language.javaScript.bodyLiterals r := by
    rcases payload_cases r with ⟨h, hb⟩ | ⟨v, b, h, -⟩ | ⟨fs, b, h, -⟩ | ⟨t, h, hb⟩
    · simp [body, Language.bodyLiterals, h, hb]
    · simp [body, Language.bodyLiterals, h, Json.literals_source]
    · simp [body, Language.bodyLiterals, h]
    · simp [body, Language.bodyLiterals, h, hb]
  simp [source, Language.literals, Language.ownLiterals, Language.constantsBefore,
    Language.constantsAfter, Language.methodLiterals, hheaders, hbody]

end JavaScript

namespace Go

theorem markless_dialect : dialect.Markless .double := by decide

theorem markless_source (r : Request) : Markless .double (source r) := by
  have hjson := Json.markless_source markless_dialect
  have hsetup : Markless .double (setup r) := by
    rw [setup]
    split <;> simp [hjson, checkError]
  have hreader (s : Source) : Markless .double (reader r :: s) ↔ Markless .double s := by
    rw [reader]
    split <;> simp
  have hheader (h : Header) : Markless .double
      ["\treq.Header.Set(", .literal h.name, ", ", .literal h.value, ")\n"] := by
    simp
  have hpackage (p : String) : Markless .double ["\t", .literal p, "\n"] := by simp
  simp only [source, checkError, concat_cons, concat_nil, markless_append, markless_text,
    markless_literal, markless_nil, markless_forEach, hsetup, hreader, hheader, hpackage,
    implies_true, and_true, true_and]
  and_intros <;> exact not_mem_toList (by decide)

theorem literals_source (r : Request) :
    Source.literals (source r) = Language.go.literals r := by
  have hsetup : Source.literals (setup r) = Language.go.bodyLiterals r := by
    rcases payload_cases r with ⟨h, hb⟩ | ⟨v, b, h, hb⟩ | ⟨fs, b, h, hb⟩ | ⟨t, h, hb⟩ <;>
      simp [setup, Language.bodyLiterals, h, hb, checkError, Json.literals_source]
  have hreader (s : Source) : Source.literals (reader r :: s) = Source.literals s := by
    rw [reader]
    split <;> simp
  simp [source, Language.literals, Language.ownLiterals, Language.constantsBefore,
    Language.constantsAfter, Language.methodLiterals, Language.headerLiterals, hsetup, hreader,
    checkError]

end Go

namespace Php

theorem markless_dialect : dialect.Markless .single := by decide

theorem markless_source (r : Request) : Markless .single (source r) := by
  have hjson := Json.markless_source markless_dialect
  have hheaders : Markless .single (headers r) := by
    rw [headers]
    split <;> simp
  have hbody : Markless .single (body r) := by
    rw [body]
    split <;> simp [hjson]
  simp only [source, concat_cons, concat_nil, markless_append, markless_text, markless_literal,
    markless_nil, and_true, true_and, hheaders, hbody]
  and_intros <;> exact not_mem_toList (by decide)

theorem literals_source (r : Request) :
    Source.literals (source r) = Language.php.literals r := by
  have hheaders : Source.literals (headers r) = Language.php.headerLiterals r := by
    cases h : r.headers with
    | nil => simp [headers, Language.headerLiterals, h]
    | cons a hs =>
      simp [headers, Language.headerLiterals, h, List.map_eq_flatMap]
  have hbody : Source.literals (body r) = Language.php.bodyLiterals r := by
    rcases payload_cases r with ⟨h, hb⟩ | ⟨v, b, h, hb⟩ | ⟨fs, b, h, hb⟩ | ⟨t, h, hb⟩ <;>
      simp [body, Language.bodyLiterals, h, hb, Json.literals_source]
  simp [source, Language.literals, Language.ownLiterals, Language.constantsBefore,
    Language.constantsAfter, Language.methodLiterals, hheaders, hbody]

end Php

namespace Java

theorem markless_source (r : Request) : Markless .double (source r) := by
  have hmethod : Markless .double (method r) := by
    rw [method]
    split <;> simp
  have hheader (h : Header) : Markless .double
      ["            .header(", .literal h.name, ", ", .literal h.value, ")\n"] := by
    simp
  simp only [source, concat_cons, concat_nil, markless_append, markless_text, markless_literal,
    markless_nil, markless_forEach, hmethod, hheader, implies_true, and_true, true_and]
  and_intros <;> exact not_mem_toList (by decide)

theorem literals_source (r : Request) :
    Source.literals (source r) = Language.java.literals r := by
  have hmethod : Source.literals (method r) =
      Language.java.methodLiterals r ++ Language.java.bodyLiterals r := by
    cases hb : r.body with
    | some b => simp [method, Language.methodLiterals, Language.bodyLiterals, hb]
    | none =>
      cases hm : r.standardMethod? with
      | none => simp [method, Language.methodLiterals, Language.bodyLiterals, hb, hm]
      | some m =>
        cases m <;> simp [method, Language.methodLiterals, Language.bodyLiterals, hb, hm]
  simp [source, Language.literals, Language.ownLiterals, Language.constantsBefore,
    Language.constantsAfter, Language.headerLiterals, hmethod]

end Java

namespace CSharp

theorem markless_source (r : Request) : Markless .double (source r) := by
  have hmethod : Markless .double (method r) := by
    rw [method]
    split
    · next m _ =>
      have hm : '"' ∉ m.capitalName.toList := m.markless_capitalName .double
      simp [hm]
    · simp
  have hbody : Markless .double (body r) := by
    rw [body]
    split <;> simp
  have hheader (h : Header) : Markless .double (header r h) := by
    rw [header]
    split <;> simp
  have himports : Markless .double (if r.body.isSome then ["using System.Text;\n"] else []) := by
    split <;> simp
  simp only [source, concat_cons, concat_nil, markless_append, markless_text, markless_literal,
    markless_nil, markless_forEach, himports, hmethod, hbody, hheader, implies_true, and_true,
    true_and]
  and_intros <;> exact not_mem_toList (by decide)

theorem literals_source (r : Request) :
    Source.literals (source r) = Language.cSharp.literals r := by
  have hmethod : Source.literals (method r) = Language.cSharp.methodLiterals r := by
    cases h : r.standardMethod? <;> simp [method, Language.methodLiterals, h]
  have hbody : Source.literals (body r) = Language.cSharp.bodyLiterals r ++
      if r.body.isSome then [mediaType r] else [] := by
    cases h : r.body <;> simp [body, Language.bodyLiterals, h]
  have hheaders : r.headers.flatMap (fun h => Source.literals (header r h)) =
      Language.cSharp.headerLiterals r := by
    rw [Language.headerLiterals]
    congr
    funext h
    rw [header]
    split <;> rfl
  cases h : r.body <;>
    simp [source, Language.literals, Language.ownLiterals, Language.constantsBefore,
      Language.constantsAfter, hmethod, hbody, hheaders, h]

end CSharp

namespace Swift

theorem markless_dialect : dialect.Markless .braced := by decide

theorem markless_source (r : Request) : Markless .braced (source r) := by
  have hjson := Json.markless_source markless_dialect
  have hbody : Markless .braced (body r) := by
    rw [body]
    split
    · next v _ =>
      split
      · cases v.isArray <;> simp [hjson]
      · simp [textBody]
    · simp [textBody]
    · simp
  have hheader (h : Header) : Markless .braced
      ["request.setValue(", .literal h.value, ", forHTTPHeaderField: ", .literal h.name,
        ")\n"] := by
    simp
  simp only [source, concat_cons, concat_nil, markless_append, markless_text, markless_literal,
    markless_nil, markless_forEach, hbody, hheader, implies_true, and_true, true_and]
  and_intros <;> exact not_mem_toList (by decide)

theorem literals_source (r : Request) :
    Source.literals (source r) = Language.swift.literals r := by
  have hbody : Source.literals (body r) = Language.swift.bodyLiterals r := by
    rcases payload_cases r with ⟨h, hb⟩ | ⟨v, b, h, hb⟩ | ⟨fs, b, h, hb⟩ | ⟨t, h, hb⟩
    · simp [body, Language.bodyLiterals, h, hb]
    · simp only [body, Language.bodyLiterals, h]
      split
      · cases v.isArray <;> simp [Json.literals_source]
      · simp [textBody, hb]
    · simp [body, Language.bodyLiterals, h, hb, textBody]
    · simp [body, Language.bodyLiterals, h, hb, textBody]
  simp [source, Language.literals, Language.ownLiterals, Language.constantsBefore,
    Language.constantsAfter, Language.methodLiterals, Language.headerLiterals, hbody]

end Swift

namespace Axios

theorem markless_headers (r : Request) : Markless .double (headers r) := by
  rw [headers]
  split <;> simp

theorem markless_body (r : Request) : Markless .double (body r) := by
  have hjson := Json.markless_source JavaScript.markless_dialect
  rw [body]
  split <;> simp [hjson]

theorem literals_method (r : Request) : Language.axios.methodLiterals r = [method r] := by
  cases h : r.standardMethod? <;> simp [method, Language.methodLiterals, h]

theorem literals_headers (r : Request) :
    Source.literals (headers r) = Language.axios.headerLiterals r := by
  cases h : r.headers <;> simp [headers, Language.headerLiterals, h]

theorem literals_body (r : Request) :
    Source.literals (body r) = Language.axios.bodyLiterals r := by
  rcases payload_cases r with ⟨h, hb⟩ | ⟨v, b, h, -⟩ | ⟨fs, b, h, -⟩ | ⟨t, h, hb⟩
  · simp [body, Language.bodyLiterals, h, hb]
  · simp [body, Language.bodyLiterals, h, Json.literals_source]
  · simp [body, Language.bodyLiterals, h]
  · simp [body, Language.bodyLiterals, h, hb]

theorem reads_source (r : Request) : Reads .double (source r) (Language.axios.literals r) := by
  obtain ⟨hclosed, hdecoded⟩ := Fragment.reads_constant (q := .double)
    (t := "const axios = require(\"axios\");\n\n") "const axios = require(" "axios" ");\n\n"
    (by decide) (by decide) (by decide)
  have hheaders := markless_headers r
  have hbody := markless_body r
  constructor
  · simp [source, hheaders.closed, hbody.closed, Fragment.closed_text, hclosed]
  · simp [source, hheaders.decoded, hbody.decoded, Fragment.lexemes_text, hdecoded,
      literals_method, literals_headers, literals_body, Language.literals, Language.ownLiterals,
      Language.constantsBefore, Language.constantsAfter]

end Axios

namespace Rust

theorem markless_dialect : dialect.Markless .braced := by decide

theorem markless_method (r : Request) : Markless .braced (method r) := by
  rw [method]
  split
  · next m _ =>
    have hm : '"' ∉ m.name.toList := m.markless_name .braced
    simp [hm]
  · simp

theorem markless_body (r : Request) : Markless .braced (body r) := by
  have hjson := Json.markless_source markless_dialect
  rw [body]
  split <;> simp [hjson]

theorem literals_method (r : Request) :
    Source.literals (method r) = Language.rust.methodLiterals r := by
  cases h : r.standardMethod? <;> simp [method, Language.methodLiterals, h]

theorem literals_body (r : Request) :
    Source.literals (body r) = Language.rust.bodyLiterals r := by
  rcases payload_cases r with ⟨h, hb⟩ | ⟨v, b, h, hb⟩ | ⟨fs, b, h, hb⟩ | ⟨t, h, hb⟩ <;>
    simp [body, Language.bodyLiterals, h, hb, Json.literals_source]

theorem reads_source (r : Request) : Reads .braced (source r) (Language.rust.literals r) := by
  obtain ⟨hstatus, hstatus'⟩ := Fragment.reads_constant (q := .braced)
    (t := "    println!(\"\x7b\x7d\", response.status());\n")
    "    println!(" "\x7b\x7d" ", response.status());\n" (by decide) (by decide) (by decide)
  obtain ⟨htext, htext'⟩ := Fragment.reads_constant (q := .braced)
    (t := "    println!(\"\x7b\x7d\", response.text().await?);\n")
    "    println!(" "\x7b\x7d" ", response.text().await?);\n" (by decide) (by decide) (by decide)
  have hmethod := markless_method r
  have hbody := markless_body r
  have hheaders : Markless .braced (.forEach r.headers fun h =>
      ["        .header(", .literal h.name, ", ", .literal h.value, ")\n"]) := by
    simp
  constructor
  · simp [source, hmethod.closed, hbody.closed, hheaders.closed, Fragment.closed_text, hstatus,
      htext]
  · simp [source, hmethod.decoded, hbody.decoded, hheaders.decoded, Fragment.lexemes_text,
      hstatus', htext', literals_method, literals_body, Language.literals, Language.ownLiterals,
      Language.constantsBefore, Language.constantsAfter, Language.headerLiterals]

end Rust

namespace Ruby

theorem markless_dialect : dialect.Markless .single := by decide

theorem reads_imports (r : Request) :
    Reads .single (imports r) (Language.ruby.constantsBefore r) := by
  obtain ⟨hhttp, hhttp'⟩ := Fragment.reads_constant (q := .single)
    (t := "require 'net/http'\n") "require " "net/http" "\n" (by decide) (by decide) (by decide)
  obtain ⟨hjson, hjson'⟩ := Fragment.reads_constant (q := .single)
    (t := "require 'json'\n") "require " "json" "\n" (by decide) (by decide) (by decide)
  obtain ⟨huri, huri'⟩ := Fragment.reads_constant (q := .single)
    (t := "require 'uri'\n\n") "require " "uri" "\n\n" (by decide) (by decide) (by decide)
  cases h : r.payload? with
  | none =>
    constructor <;> simp [imports, Language.constantsBefore, h, hhttp, huri, hhttp', huri']
  | some p =>
    cases p <;> constructor <;>
      simp [imports, Language.constantsBefore, h, hhttp, hjson, huri, hhttp', hjson', huri']

theorem markless_construction (r : Request) : Markless .single (construction r) := by
  rw [construction]
  split
  · next m _ =>
    have hm : '\'' ∉ m.capitalName.toList := m.markless_capitalName .single
    simp [hm]
  · cases r.body <;> simp

theorem markless_body (r : Request) : Markless .single (body r) := by
  have hjson := Json.markless_source markless_dialect
  rw [body]
  split <;> simp [hjson]

theorem literals_construction (r : Request) :
    Source.literals (construction r) = Language.ruby.methodLiterals r := by
  cases h : r.standardMethod? with
  | none => cases hb : r.body <;> simp [construction, Language.methodLiterals, h, hb]
  | some m => simp [construction, Language.methodLiterals, h]

theorem literals_body (r : Request) :
    Source.literals (body r) = Language.ruby.bodyLiterals r := by
  rcases payload_cases r with ⟨h, hb⟩ | ⟨v, b, h, -⟩ | ⟨fs, b, h, -⟩ | ⟨t, h, hb⟩
  · simp [body, Language.bodyLiterals, h, hb]
  · simp [body, Language.bodyLiterals, h, Json.literals_source]
  · simp [body, Language.bodyLiterals, h]
  · simp [body, Language.bodyLiterals, h, hb]

theorem reads_source (r : Request) : Reads .single (source r) (Language.ruby.literals r) := by
  obtain ⟨hscheme, hscheme'⟩ := Fragment.reads_constant (q := .single)
    (t := "use_ssl: uri.scheme == 'https') do |http|\n")
    "use_ssl: uri.scheme == " "https" ") do |http|\n" (by decide) (by decide) (by decide)
  obtain ⟨himports, himports'⟩ := reads_imports r
  have hconstruction := markless_construction r
  have hbody := markless_body r
  have hheaders : Markless .single (.forEach r.headers fun h =>
      ["request[", .literal h.name, "] = ", .literal h.value, "\n"]) := by
    simp
  constructor
  · simp [source, himports, hconstruction.closed, hbody.closed, hheaders.closed,
      Fragment.closed_text, hscheme]
  · simp [source, himports', hconstruction.decoded, hbody.decoded, hheaders.decoded,
      Fragment.lexemes_text, hscheme', literals_construction, literals_body, Language.literals,
      Language.ownLiterals, Language.constantsAfter, Language.headerLiterals]

end Ruby

theorem Language.reads_source (l : Language) (r : Request) :
    Reads l.quoting (l.source r) (l.literals r) := by
  cases l with
  | python => exact Python.literals_source r ▸ (Python.markless_source r).reads
  | javaScript => exact JavaScript.literals_source r ▸ (JavaScript.markless_source r).reads
  | axios => exact Axios.reads_source r
  | go => exact Go.literals_source r ▸ (Go.markless_source r).reads
  | rust => exact Rust.reads_source r
  | php => exact Php.literals_source r ▸ (Php.markless_source r).reads
  | ruby => exact Ruby.reads_source r
  | java => exact Java.literals_source r ▸ (Java.markless_source r).reads
  | cSharp => exact CSharp.literals_source r ▸ (CSharp.markless_source r).reads
  | swift => exact Swift.literals_source r ▸ (Swift.markless_source r).reads

end CurlCode

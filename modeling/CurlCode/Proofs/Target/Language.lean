import CurlCode.Proofs.Json.Shape
import CurlCode.Target

/-!
The languages of the built-in targets, each with its sources and its way of quoting, and
the requests that a language cannot tell apart outside its literals (`SameShape`).
-/
namespace CurlCode

inductive Language where
  | python | javaScript | axios | go | rust | php | ruby | java | cSharp | swift
  deriving DecidableEq, Repr

namespace Language

def all : List Language :=
  [.python, .javaScript, .axios, .go, .rust, .php, .ruby, .java, .cSharp, .swift]

def target : Language → Target
  | .python => .python
  | .javaScript => .javaScript
  | .axios => .axios
  | .go => .go
  | .rust => .rust
  | .php => .php
  | .ruby => .ruby
  | .java => .java
  | .cSharp => .cSharp
  | .swift => .swift

/-- The targets of the languages are the built-in ones, in their order. -/
theorem builtin_eq_map_target : Target.builtin = all.map target := rfl

def quoting : Language → Quoting
  | .php | .ruby => .single
  | .rust | .swift => .braced
  | .python | .javaScript | .axios | .go | .java | .cSharp => .double

def source : Language → Request → Source
  | .python => Python.source
  | .javaScript => JavaScript.source
  | .axios => Axios.source
  | .go => Go.source
  | .rust => Rust.source
  | .php => Php.source
  | .ruby => Ruby.source
  | .java => Java.source
  | .cSharp => CSharp.source
  | .swift => Swift.source

theorem emit_target (l : Language) (r : Request) :
    l.target.emit r = (l.source r).render l.quoting := by
  cases l <;> simp only [target, source, quoting, Target.python, Target.javaScript, Target.axios,
    Target.go, Target.rust, Target.php, Target.ruby, Target.java, Target.cSharp, Target.swift]

end Language

/-- Bodies of one kind: JSON up to the text of strings and keys, forms up to that of fields. -/
inductive SameBody : Option Payload → Option Payload → Prop
  | none : SameBody none none
  | json {v w : Json} (h : v.blank = w.blank) : SameBody (some (.json v)) (some (.json w))
  | form {fs gs : List Field} (h : fs.length = gs.length) :
    SameBody (some (.form fs)) (some (.form gs))
  | raw (s t : String) : SameBody (some (.raw s)) (some (.raw t))

/-- A form whose field names repeat. -/
def Payload.Repeats : Payload → Prop
  | .form fields => ¬ (fields.map Field.name).Nodup
  | .json _ | .raw _ => False

/-- Requests that differ in the text of their parts only. A method has to be the same if it
is a standard one, in any letter case. -/
structure SameShape (l : Language) (r r' : Request) : Prop where
  method : r.standardMethod? = r'.standardMethod?
  headers : r.headers.length = r'.headers.length
  contentHeaders : l = .cSharp →
    r.headers.map (CSharp.isContentHeader ·.name) = r'.headers.map (CSharp.isContentHeader ·.name)
  body : SameBody r.payload? r'.payload?
  repeats : l = .python → ((∃ p ∈ r.payload?, p.Repeats) ↔ ∃ p ∈ r'.payload?, p.Repeats)

theorem isSome_payload? (r : Request) : r.payload?.isSome = r.body.isSome := by
  simp [Request.payload?]

theorem SameBody.isSome_eq {p q : Option Payload} (h : SameBody p q) : p.isSome = q.isSome := by
  cases h <;> rfl

theorem SameBody.payloads {p q : Option Payload} (h : SameBody p q) :
    (p = Option.none ∧ q = Option.none) ∨
    (∃ v w, p = some (.json v) ∧ q = some (.json w) ∧ v.blank = w.blank) ∨
    (∃ fs gs, p = some (.form fs) ∧ q = some (.form gs) ∧ fs.length = gs.length) ∨
    ∃ s t, p = some (.raw s) ∧ q = some (.raw t) := by
  cases h with
  | none => exact .inl ⟨rfl, rfl⟩
  | json hv => exact .inr (.inl ⟨_, _, rfl, rfl, hv⟩)
  | form hf => exact .inr (.inr (.inl ⟨_, _, rfl, rfl, hf⟩))
  | raw s t => exact .inr (.inr (.inr ⟨s, t, rfl, rfl⟩))

theorem SameShape.isSome_body {l : Language} {r r' : Request} (h : SameShape l r r') :
    r.body.isSome = r'.body.isSome := by
  rw [← isSome_payload?, ← isSome_payload?, h.body.isSome_eq]

theorem SameShape.isEmpty_headers {l : Language} {r r' : Request} (h : SameShape l r r') :
    r.headers.isEmpty = r'.headers.isEmpty := by
  have hlength := h.headers
  cases hr : r.headers <;> cases hr' : r'.headers <;> simp_all

end CurlCode

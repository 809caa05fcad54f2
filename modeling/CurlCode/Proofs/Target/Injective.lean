import CurlCode.Proofs.Target.TextRecovery

/-!
Emission loses nothing but the letter case of a standard method: a program tells the URL,
the headers, the canonical method and the payload of its request. Axios is left out.
-/
namespace CurlCode

open Source Text

theorem StandardMethod.of?_congr {a b : String} (h : sameLetters a b) : of? a = of? b := by
  have hsame : (fun m : StandardMethod => sameLetters m.name a) =
      fun m => sameLetters m.name b := by
    funext m
    rw [Bool.eq_iff_iff]
    constructor
    · intro ha
      exact sameLetters_trans ha h
    · intro hb
      rw [sameLetters_comm] at h
      exact sameLetters_trans hb h
  rw [of?, of?, hsame]

namespace Language

theorem same_of_emit {l : Language} (hl : l ≠ .axios) {r r' : Request}
    (hr : ∀ h ∈ r.headers, ':' ∉ h.name.toList) (hr' : ∀ h ∈ r'.headers, ':' ∉ h.name.toList)
    (h : l.target.emit r = l.target.emit r') : SameRequest r r' := by
  have hlexemes : l.lexemes r = l.lexemes r' := by rw [lexemes, lexemes, h]
  rw [lexemes_eq, lexemes_eq] at hlexemes
  cases l with
  | python => exact Python.same_of_lexemes hlexemes
  | javaScript => exact JavaScript.same_of_lexemes hlexemes
  | axios => exact absurd rfl hl
  | go => exact Go.same_of_lexemes hlexemes
  | rust => exact Rust.same_of_lexemes hlexemes
  | php => exact Php.same_of_lexemes hr hr' hlexemes
  | ruby => exact Ruby.same_of_lexemes hlexemes
  | java => exact Java.same_of_lexemes hlexemes
  | cSharp => exact CSharp.same_of_lexemes hlexemes
  | swift => exact Swift.same_of_lexemes hlexemes

/-- Where the method is a standard one, its letter case shows nowhere. -/
theorem source_standard (l : Language) {r : Request} {m : StandardMethod} {method : String}
    (h : r.standardMethod? = some m)
    (h' : { r with method := method }.standardMethod? = some m) :
    l.source { r with method := method } = l.source r := by
  have hname : r.canonicalMethod = m.name := by simp [Request.canonicalMethod, h]
  have hname' : { r with method := method }.canonicalMethod = m.name := by
    simp [Request.canonicalMethod, h']
  cases l with
  | python =>
    rw [source, Python.source, Python.source, Python.call, Python.call, h, h']
    rfl
  | javaScript =>
    rw [source, JavaScript.source, JavaScript.source, hname, hname']
    rfl
  | axios =>
    rw [source, Axios.source, Axios.source, Axios.method, Axios.method, h, h']
    rfl
  | go =>
    rw [source, Go.source, Go.source, hname, hname']
    rfl
  | rust =>
    rw [source, Rust.source, Rust.source, Rust.method, Rust.method, h, h']
    rfl
  | php =>
    rw [source, Php.source, Php.source, hname, hname']
    rfl
  | ruby =>
    rw [source, Ruby.source, Ruby.source, Ruby.construction, Ruby.construction, h, h']
    rfl
  | java =>
    rw [source, Java.source, Java.source, Java.method, Java.method, h, h', hname, hname']
  | cSharp =>
    rw [source, CSharp.source, CSharp.source, CSharp.method, CSharp.method, h, h']
    rfl
  | swift =>
    rw [source, Swift.source, Swift.source, hname, hname']
    rfl

/-- Equal programs are those of equal requests, the letter case of a standard method apart;
that case is in no program. -/
theorem emit_recovers :
    (∀ (l : Language) (r r' : Request), l ≠ .axios →
      (∀ h ∈ r.headers, ':' ∉ h.name.toList) → (∀ h ∈ r'.headers, ':' ∉ h.name.toList) →
      l.target.emit r = l.target.emit r' →
        r.url = r'.url ∧ r.headers = r'.headers ∧ r.canonicalMethod = r'.canonicalMethod ∧
          r.payload? = r'.payload?) ∧
    ∀ (l : Language) (r : Request) (method : String), r.standardMethod?.isSome →
      sameLetters r.method method →
        l.target.emit { r with method := method } = l.target.emit r := by
  constructor
  · intro l r r' hl hr hr' h
    have hsame := same_of_emit hl hr hr' h
    exact ⟨hsame.url, hsame.headers, hsame.canonicalMethod, hsame.payload?⟩
  · intro l r method hstandard hletters
    obtain ⟨m, hm⟩ := Option.isSome_iff_exists.1 hstandard
    have hm' : { r with method := method }.standardMethod? = some m := by
      rw [← hm]
      exact (StandardMethod.of?_congr hletters).symm
    rw [emit_target, emit_target, source_standard l hm hm']

/-- `get` and `GET` give the same program, which tells all but that. -/
theorem emit_recovers_get :
    let r : Request := ⟨"get", "http://a/", [⟨"Accept", "*/*"⟩], some "it's"⟩
    let r' : Request := ⟨"GET", "http://a/", [⟨"Accept", "*/*"⟩], some "it's"⟩
    php.target.emit r' = php.target.emit r ∧ r'.canonicalMethod = r.canonicalMethod := by
  intro r r'
  have hemit : php.target.emit r' = php.target.emit r :=
    emit_recovers.2 .php r "GET" (by decide) (by decide)
  have hr : ∀ h ∈ r.headers, ':' ∉ h.name.toList := by decide
  exact ⟨hemit, (emit_recovers.1 .php r' r (by decide) hr hr hemit).2.2.1⟩

end Language

end CurlCode

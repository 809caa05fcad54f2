import CurlCode.Proofs.Target.Literals
import CurlCode.Proofs.Target.Outline

/-!
What a request holds stays inside the literals of its program: the literals are those of
the template, and the rest of the program depends on the shape of the request alone.
-/
namespace CurlCode

open Source

namespace Language

/-- The reading of a program, from its first character to its last. -/
def lexemes (l : Language) (r : Request) : List Lexeme :=
  Place.outside.lexemes l.quoting (l.target.emit r).toList

theorem lexemes_eq (l : Language) (r : Request) :
    l.lexemes r = Source.lexemes l.quoting (l.source r) := by
  rw [lexemes, emit_target]
  exact (lexemes_render (l.reads_source r).closed).2

theorem after_emit (l : Language) (r : Request) :
    Place.outside.after l.quoting (l.target.emit r).toList = .outside := by
  rw [emit_target]
  exact (lexemes_render (l.reads_source r).closed).1

/-- No text of a request leaves its literal. -/
theorem emit_contained (l : Language) (r : Request) :
    Place.outside.after l.quoting (l.target.emit r).toList = .outside ∧
    decoded (l.lexemes r) = (l.literals r).map some ∧
    ∀ r', SameShape l r r' → gaps (l.lexemes r) = gaps (l.lexemes r') := by
  refine ⟨l.after_emit r, ?_, ?_⟩
  · rw [lexemes_eq]
    exact (l.reads_source r).decoded
  · intro r' h
    rw [lexemes_eq, lexemes_eq]
    exact gaps_eq_of_outline_eq l.quoting (outline_source h)

/-- Apostrophes and backslashes against Ruby's literals. -/
theorem emit_contained_ruby :
    SameShape .ruby ⟨"get", "http://a/'", [⟨"X'", "\\"⟩], some "'); exit ('"⟩
      ⟨"GET", "http://b/", [⟨"Y", "z"⟩], some "t"⟩ ∧
    gaps (ruby.lexemes ⟨"get", "http://a/'", [⟨"X'", "\\"⟩], some "'); exit ('"⟩) =
      gaps (ruby.lexemes ⟨"GET", "http://b/", [⟨"Y", "z"⟩], some "t"⟩) := by
  have h : SameShape .ruby ⟨"get", "http://a/'", [⟨"X'", "\\"⟩], some "'); exit ('"⟩
      ⟨"GET", "http://b/", [⟨"Y", "z"⟩], some "t"⟩ :=
    { method := by decide
      headers := rfl
      contentHeaders := by intro h; cases h
      body := .raw _ _
      repeats := by intro h; cases h }
  exact ⟨h, (emit_contained .ruby _).2.2 _ h⟩

end Language

end CurlCode

import CurlCode.Proofs.Lexeme

/-!
The two views of a program: the text outside its literals, with a gap where each literal
stands, and the literals. Sources with the same outline render to programs with the same
text outside the literals (`gaps_eq_of_outline_eq`).
-/
namespace CurlCode

/-- The text outside the literals; `none` stands for a literal. -/
def gaps (ls : List Lexeme) : List (Option Char) :=
  ls.map fun
    | .plain c => some c
    | .literal _ => none

/-- What the literals stand for, in order; `none` for a literal with a broken escape. -/
def decoded (ls : List Lexeme) : List (Option String) :=
  ls.filterMap fun
    | .plain _ => none
    | .literal t => some t

@[simp] theorem gaps_append (ls ms : List Lexeme) : gaps (ls ++ ms) = gaps ls ++ gaps ms :=
  List.map_append
@[simp] theorem gaps_literal (t : Option String) (ls : List Lexeme) :
    gaps (.literal t :: ls) = none :: gaps ls := rfl
@[simp] theorem gaps_plain (t : String) : gaps (plain t) = t.toList.map some := by
  simp [gaps, plain]

@[simp] theorem decoded_nil : decoded [] = [] := rfl
@[simp] theorem decoded_append (ls ms : List Lexeme) :
    decoded (ls ++ ms) = decoded ls ++ decoded ms := List.filterMap_append
@[simp] theorem decoded_literal (t : Option String) (ls : List Lexeme) :
    decoded (.literal t :: ls) = t :: decoded ls := rfl
@[simp] theorem decoded_plain (t : String) : decoded (plain t) = [] := by
  simp [decoded, plain]

namespace Source

/-- The texts of a source, with a gap for each literal. -/
def outline (s : Source) : List (Option String) :=
  s.map fun
    | .text t => some t
    | .literal _ => none

@[simp] theorem outline_nil : outline [] = [] := rfl
@[simp] theorem outline_text (t : String) (s : Source) :
    outline (.text t :: s) = some t :: outline s := rfl
@[simp] theorem outline_literal (t : String) (s : Source) :
    outline (.literal t :: s) = none :: outline s := rfl
@[simp] theorem outline_append (s t : Source) : outline (s ++ t) = outline s ++ outline t :=
  List.map_append

@[simp] theorem outline_forEach (items : List α) (part : α → Source) :
    outline (forEach items part) = items.flatMap fun a => outline (part a) := by
  induction items with
  | nil => rfl
  | cons a items ih => simp [ih]

/-- What a fragment of the outline leaves outside the literals. -/
def outside (q : Quoting) : Option String → List (Option Char)
  | some t => gaps (Place.outside.lexemes q t.toList)
  | none => [none]

theorem gaps_lexemes (q : Quoting) (s : Source) :
    gaps (lexemes q s) = (outline s).flatMap (outside q) := by
  induction s with
  | nil => rfl
  | cons f s ih =>
    rw [lexemes_cons, gaps_append, ih]
    cases f <;> rfl

theorem gaps_eq_of_outline_eq (q : Quoting) {s t : Source} (h : outline s = outline t) :
    gaps (lexemes q s) = gaps (lexemes q t) := by
  rw [gaps_lexemes, gaps_lexemes, h]

/-- No text of the source holds a mark, so all literals are those of its strings. -/
def Markless (q : Quoting) (s : Source) : Prop := ∀ t, .text t ∈ s → q.mark ∉ t.toList

@[simp] theorem markless_nil (q : Quoting) : Markless q [] := by simp [Markless]
@[simp] theorem markless_text (q : Quoting) (t : String) (s : Source) :
    Markless q (.text t :: s) ↔ q.mark ∉ t.toList ∧ Markless q s := by
  simp [Markless, or_imp, forall_and]
@[simp] theorem markless_literal (q : Quoting) (t : String) (s : Source) :
    Markless q (.literal t :: s) ↔ Markless q s := by simp [Markless]
@[simp] theorem markless_append (q : Quoting) (s t : Source) :
    Markless q (s ++ t) ↔ Markless q s ∧ Markless q t := by
  simp [Markless, or_imp, forall_and]

@[simp] theorem markless_forEach (q : Quoting) (items : List α) (part : α → Source) :
    Markless q (forEach items part) ↔ ∀ a ∈ items, Markless q (part a) := by
  induction items with
  | nil => simp
  | cons a items ih => simp [ih]

/-- A text given by its characters is searched without decoding it. -/
theorem not_mem_toList {c : Char} {l : List Char} (h : c ∉ l) : c ∉ (String.ofList l).toList := by
  rwa [String.toList_ofList]

theorem Markless.closed {q : Quoting} {s : Source} (h : Markless q s) : Closed q s := by
  intro f hf
  cases f with
  | text t => exact Fragment.closed_text (h t hf)
  | literal t => trivial

theorem Markless.decoded {q : Quoting} {s : Source} (h : Markless q s) :
    decoded (lexemes q s) = (literals s).map some := by
  induction s with
  | nil => rfl
  | cons f s ih =>
    cases f with
    | text t =>
      obtain ⟨ht, hs⟩ := (markless_text q t s).1 h
      simp [Fragment.lexemes_text ht, ih hs]
    | literal t => simp [ih ((markless_literal q t s).1 h)]

end Source

end CurlCode

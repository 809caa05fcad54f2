import CurlCode.Literal

/-!
Source text, as a sequence of fixed text and of strings that become literals. What a
string holds never reaches the text between the literals.
-/
namespace CurlCode

inductive Fragment where
  | text (s : String)
  | literal (s : String)
  deriving DecidableEq, Repr

instance : Coe String Fragment := ⟨.text⟩

abbrev Source := List Fragment

def Fragment.render (q : Quoting) : Fragment → String
  | .text s => s
  | .literal s => q.quote s

namespace Source

def render (q : Quoting) (s : Source) : String := String.join (s.map (Fragment.render q))

@[simp] theorem render_nil (q : Quoting) : render q [] = "" := by simp [render]
@[simp] theorem render_cons (q : Quoting) (f : Fragment) (s : Source) :
    render q (f :: s) = f.render q ++ render q s := by simp [render]
@[simp] theorem render_append (q : Quoting) (s t : Source) :
    render q (s ++ t) = render q s ++ render q t := by simp [render]

/-- One part after the other. -/
def concat (parts : List Source) : Source := parts.flatten

@[simp] theorem concat_nil : concat [] = [] := rfl
@[simp] theorem concat_cons (s : Source) (parts : List Source) :
    concat (s :: parts) = s ++ concat parts := rfl

/-- The same part for every item. -/
def forEach (items : List α) (part : α → Source) : Source := items.flatMap part

@[simp] theorem forEach_nil (part : α → Source) : forEach [] part = [] := rfl
@[simp] theorem forEach_cons (a : α) (items : List α) (part : α → Source) :
    forEach (a :: items) part = part a ++ forEach items part := rfl

/-- The strings that become literals, in order. -/
def literals (s : Source) : List String :=
  s.filterMap fun
    | .literal t => some t
    | .text _ => none

@[simp] theorem literals_nil : literals [] = [] := rfl
@[simp] theorem literals_text (t : String) (s : Source) :
    literals (.text t :: s) = literals s := rfl
@[simp] theorem literals_literal (t : String) (s : Source) :
    literals (.literal t :: s) = t :: literals s := rfl
@[simp] theorem literals_append (s t : Source) :
    literals (s ++ t) = literals s ++ literals t := List.filterMap_append

end Source

end CurlCode

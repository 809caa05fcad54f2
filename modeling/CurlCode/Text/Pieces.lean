/-!
Cutting text at separators. `cut?` cuts at the first one (`cut?_eq_some`); `pieces`
cuts at all of them, and cutting what was joined gives the pieces back (`pieces_joinWith`).
-/
namespace CurlCode.Text

/-- The text before and after the first separator. -/
def cut? (sep : Char) : List Char → Option (List Char × List Char)
  | [] => none
  | c :: cs => if c = sep then some ([], cs)
    else (cut? sep cs).map fun (a, b) => (c :: a, b)

theorem cut?_eq_some {sep : Char} {s a b : List Char} (h : cut? sep s = some (a, b)) :
    s = a ++ sep :: b ∧ sep ∉ a := by
  induction s generalizing a with
  | nil => simp [cut?] at h
  | cons c cs ih =>
    by_cases hc : c = sep
    · simp only [cut?, hc, if_true, Option.some.injEq, Prod.mk.injEq] at h
      obtain ⟨rfl, rfl⟩ := h
      simp [hc]
    · simp only [cut?, hc, if_false, Option.map_eq_some_iff] at h
      obtain ⟨⟨a', b'⟩, hcut, heq⟩ := h
      simp only [Prod.mk.injEq] at heq
      obtain ⟨rfl, rfl⟩ := heq
      obtain ⟨rfl, hn⟩ := ih hcut
      simp [hn, Ne.symm hc]

theorem cut?_append {sep : Char} {a : List Char} (h : sep ∉ a) (b : List Char) :
    cut? sep (a ++ sep :: b) = some (a, b) := by
  induction a with
  | nil => simp [cut?]
  | cons c a ih =>
    simp only [List.mem_cons, not_or] at h
    simp [cut?, Ne.symm h.1, ih h.2]

theorem cut?_eq_none {sep : Char} {s : List Char} : cut? sep s = none ↔ sep ∉ s := by
  induction s with
  | nil => simp [cut?]
  | cons c cs ih =>
    by_cases hc : c = sep
    · simp [cut?, hc]
    · simp [cut?, hc, ih, Ne.symm hc]

/-- The stretches between separators: one more than there are separators. -/
def pieces (sep : Char) : List Char → List (List Char)
  | [] => [[]]
  | c :: cs => if c = sep then [] :: pieces sep cs
    else match pieces sep cs with
      | [] => [[c]]
      | p :: ps => (c :: p) :: ps

theorem pieces_ne_nil (sep : Char) (s : List Char) : pieces sep s ≠ [] := by
  cases s with
  | nil => simp [pieces]
  | cons c cs =>
    simp only [pieces]
    split
    · simp
    · split <;> simp

/-- Joining with one separator between neighbours. -/
def joinWith (sep : Char) : List (List Char) → List Char
  | [] => []
  | [p] => p
  | p :: q :: ps => p ++ sep :: joinWith sep (q :: ps)

theorem pieces_of_not_mem {sep : Char} {p : List Char} (h : sep ∉ p) : pieces sep p = [p] := by
  induction p with
  | nil => rfl
  | cons c p ih =>
    simp only [List.mem_cons, not_or] at h
    rw [pieces, if_neg (Ne.symm h.1), ih h.2]

theorem pieces_append {sep : Char} {p : List Char} (h : sep ∉ p) (s : List Char) :
    pieces sep (p ++ sep :: s) = p :: pieces sep s := by
  induction p with
  | nil => simp [pieces]
  | cons c p ih =>
    simp only [List.mem_cons, not_or] at h
    rw [List.cons_append, pieces, if_neg (Ne.symm h.1), ih h.2]

theorem pieces_joinWith {sep : Char} {ps : List (List Char)} (hne : ps ≠ [])
    (h : ∀ p ∈ ps, sep ∉ p) : pieces sep (joinWith sep ps) = ps := by
  induction ps with
  | nil => exact absurd rfl hne
  | cons p ps ih =>
    have hp : sep ∉ p := h p List.mem_cons_self
    cases ps with
    | nil => exact pieces_of_not_mem hp
    | cons q ps =>
      rw [joinWith, pieces_append hp, ih (by simp) fun r hr => h r (List.mem_cons_of_mem _ hr)]

/-- `sought` stands somewhere in the text. -/
def occursIn (sought : List Char) : List Char → Bool
  | [] => sought.isEmpty
  | c :: cs => sought.isPrefixOf (c :: cs) || occursIn sought cs

end CurlCode.Text

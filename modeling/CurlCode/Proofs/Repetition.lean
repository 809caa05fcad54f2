import Mathlib.Data.List.Induction

/-!
Lists without their repetitions: of equal items the first stays. An item at the end makes
a difference only if it is new (`eraseDups_concat`).
-/
namespace CurlCode

variable {α : Type} [DecidableEq α]

theorem eraseDups_concat (as : List α) (a : α) :
    (as ++ [a]).eraseDups = if a ∈ as then as.eraseDups else as.eraseDups ++ [a] := by
  rw [List.eraseDups_append]
  by_cases ha : a ∈ as <;> simp [List.removeAll, List.eraseDups_cons, ha]

theorem nodup_eraseDups (as : List α) : as.eraseDups.Nodup := by
  induction as using List.reverseRecOn with
  | nil => exact List.nodup_nil
  | append_singleton as a ih =>
    rw [eraseDups_concat]
    split
    · exact ih
    · next ha =>
      have hne : ∀ b ∈ as.eraseDups, ∀ c ∈ [a], b ≠ c := by
        intro b hb c hc hbc
        rw [List.mem_singleton.1 hc] at hbc
        exact ha (hbc ▸ List.mem_eraseDups.1 hb)
      exact List.nodup_append.2 ⟨ih, List.pairwise_singleton _ a, hne⟩

theorem eraseDups_filter (p : α → Bool) (as : List α) :
    (as.filter p).eraseDups = as.eraseDups.filter p := by
  induction as using List.reverseRecOn with
  | nil => rfl
  | append_singleton as a ih =>
    rw [List.filter_append, eraseDups_concat]
    by_cases hp : p a
    · rw [List.filter_cons_of_pos hp, List.filter_nil, eraseDups_concat, ih]
      by_cases ha : a ∈ as <;> simp [ha, hp]
    · rw [List.filter_cons_of_neg hp, List.filter_nil, List.append_nil, ih]
      split <;> simp [hp]

end CurlCode

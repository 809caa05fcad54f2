import CurlCode.Text.Ascii

/-!
Hexadecimal numbers read digit by digit (`hexNumber?_eq_foldl`). A number has hexadecimal
digits only (`isHexDigit_of_mem`).
-/
namespace CurlCode.Text

/-- The number with one more digit at the end. -/
def withHexDigit (n : Option Nat) (d : Char) : Option Nat :=
  n.bind fun n => (hexValue? d).map fun v => 16 * n + v

theorem hexNumber?_eq_foldl {ds : List Char} (h : ds ≠ []) :
    hexNumber? ds = ds.foldl withHexDigit (some 0) := by
  cases ds with
  | nil => exact absurd rfl h
  | cons d ds =>
    have hstep :
        (fun (n : Option Nat) d => return 16 * (← n) + (← hexValue? d)) = withHexDigit := by
      funext n d
      cases n <;> cases hv : hexValue? d <;> simp [withHexDigit, hv]
    simp only [hexNumber?, hstep]

theorem foldl_withHexDigit_none (ds : List Char) : ds.foldl withHexDigit none = none := by
  induction ds with
  | nil => rfl
  | cons d ds ih => simpa [withHexDigit] using ih

theorem isHexDigit_of_mem {ds : List Char} {n : Nat} (h : hexNumber? ds = some n)
    {d : Char} (hd : d ∈ ds) : isHexDigit d := by
  have hne : ds ≠ [] := List.ne_nil_of_mem hd
  rw [hexNumber?_eq_foldl hne] at h
  obtain ⟨before, after, rfl⟩ := List.append_of_mem hd
  rw [List.foldl_append, List.foldl_cons] at h
  cases hv : hexValue? d with
  | some v => simp [isHexDigit, hv]
  | none => simp [withHexDigit, hv, foldl_withHexDigit_none] at h

end CurlCode.Text

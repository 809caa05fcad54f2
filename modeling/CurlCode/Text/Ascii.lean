/-!
The ASCII letters and digits. Letter case is the ASCII one throughout: a character
outside ASCII equals only itself.
-/
namespace CurlCode.Text

/-- The text with its ASCII letters in lower case. -/
def lower (s : String) : String := String.ofList (s.toList.map Char.toLower)

/-- Equality up to the case of ASCII letters. -/
def sameLetters (s t : String) : Bool :=
  s.toList.map Char.toLower == t.toList.map Char.toLower

@[simp] theorem sameLetters_self (s : String) : sameLetters s s = true := by
  simp [sameLetters]

theorem sameLetters_comm (s t : String) : sameLetters s t = sameLetters t s := by
  exact Bool.eq_iff_iff.2 (by simpa only [sameLetters, beq_iff_eq] using ⟨Eq.symm, Eq.symm⟩)

theorem sameLetters_trans {s t u : String} (h : sameLetters s t) (k : sameLetters t u) :
    sameLetters s u := by
  simp only [sameLetters, beq_iff_eq] at *
  exact h.trans k

/-- The value of a hexadecimal digit of either case. -/
def hexValue? (c : Char) : Option Nat :=
  if c.isDigit then some (c.toNat - '0'.toNat)
  else if 'a' ≤ c ∧ c ≤ 'f' then some (c.toNat - 'a'.toNat + 10)
  else if 'A' ≤ c ∧ c ≤ 'F' then some (c.toNat - 'A'.toNat + 10)
  else none

def isHexDigit (c : Char) : Bool := (hexValue? c).isSome

/-- The number that hexadecimal digits spell; `none` without digits or for another character. -/
def hexNumber? : List Char → Option Nat
  | [] => none
  | ds => ds.foldl (fun n d => return 16 * (← n) + (← hexValue? d)) (some 0)

/-- The number that decimal digits spell; `none` without digits or for another character. -/
def decimalNumber? : List Char → Option Nat
  | [] => none
  | ds => if ds.all Char.isDigit
      then some (ds.foldl (fun n d => 10 * n + (d.toNat - '0'.toNat)) 0) else none

/-- The shortest lower-case hexadecimal spelling. -/
def hex (n : Nat) : List Char := Nat.toDigits 16 n

/-- Lower-case hexadecimal, filled with zeros up to `width` digits. -/
def hexPadded (width n : Nat) : List Char :=
  List.replicate (width - (hex n).length) '0' ++ hex n

/-- The character with a code point; `none` for surrogates and beyond the last plane. -/
def charOf? (n : Nat) : Option Char :=
  if n.isValidChar then some (Char.ofNat n) else none

end CurlCode.Text

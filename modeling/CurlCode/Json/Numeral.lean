import CurlCode.Text.Ascii

/-!
Numbers as JSON writes them. The digits are kept, however many there are, and so is the sign
of zero. An exponent is written with `e` and a sign, so one value can have been spelled in
several ways.
-/
namespace CurlCode.Json

/-- One or more decimal digits. -/
def isDigits (ds : List Char) : Bool := !ds.isEmpty && ds.all Char.isDigit

/-- Digits without a leading zero, zero itself apart. -/
def isWhole (ds : List Char) : Bool := isDigits ds && (ds.head? != some '0' || ds == ['0'])

structure Numeral where
  negative : Bool
  whole : List Char
  fraction : Option (List Char)
  /-- The sign, true for minus, and the digits. -/
  exponent : Option (Bool × List Char)
  whole_ok : isWhole whole
  fraction_ok : fraction.all isDigits
  exponent_ok : exponent.all fun e => isDigits e.2
  deriving DecidableEq, Repr

namespace Numeral

def text (n : Numeral) : List Char :=
  (if n.negative then ['-'] else []) ++ n.whole
    ++ (match n.fraction with
      | some ds => '.' :: ds
      | none => [])
    ++ (match n.exponent with
      | some (negative, ds) => 'e' :: (if negative then '-' else '+') :: ds
      | none => [])

/-- A minus sign, if there is one. -/
def readMinus : List Char → Bool × List Char
  | '-' :: r => (true, r)
  | r => (false, r)

def readFraction : List Char → Option (List Char) × List Char
  | '.' :: r => (some (r.takeWhile Char.isDigit), r.dropWhile Char.isDigit)
  | r => (none, r)

/-- The sign of an exponent, plus if left out. -/
def readSign : List Char → Bool × List Char
  | '-' :: r => (true, r)
  | '+' :: r => (false, r)
  | r => (false, r)

def readExponent : List Char → Option (Bool × List Char) × List Char
  | c :: r =>
    if c = 'e' ∨ c = 'E' then
      let (negative, ds) := readSign r
      (some (negative, ds.takeWhile Char.isDigit), ds.dropWhile Char.isDigit)
    else (none, c :: r)
  | [] => (none, [])

/-- The numeral at the front of a text, as far as it goes, and the rest. -/
def read? (s : List Char) : Option (Numeral × List Char) :=
  let (negative, s) := readMinus s
  let whole := s.takeWhile Char.isDigit
  let (fraction, s) := readFraction (s.dropWhile Char.isDigit)
  let (exponent, s) := readExponent s
  if h : isWhole whole ∧ fraction.all isDigits ∧ exponent.all fun e => isDigits e.2 then
    some (⟨negative, whole, fraction, exponent, h.1, h.2.1, h.2.2⟩, s)
  else none

/-- The numeral that is the whole text. -/
def ofText? (s : List Char) : Option Numeral :=
  match read? s with
  | some (n, []) => some n
  | _ => none

theorem length_readMinus (s : List Char) : (readMinus s).2.length ≤ s.length := by
  fun_cases readMinus s <;> simp

theorem length_dropWhile_le (p : Char → Bool) (s : List Char) :
    (s.dropWhile p).length ≤ s.length := (List.dropWhile_sublist p).length_le

theorem length_readFraction (s : List Char) : (readFraction s).2.length ≤ s.length := by
  fun_cases readFraction s with
  | case1 r => exact Nat.le_succ_of_le (length_dropWhile_le _ r)
  | case2 => exact Nat.le_refl _

theorem length_readSign (s : List Char) : (readSign s).2.length ≤ s.length := by
  fun_cases readSign s <;> simp

theorem length_readExponent (s : List Char) : (readExponent s).2.length ≤ s.length := by
  fun_cases readExponent s with
  | case1 c r h negative ds hs =>
    have := length_readSign r
    have := length_dropWhile_le Char.isDigit ds
    simp_all only [List.length_cons]
    omega
  | case2 => exact Nat.le_refl _
  | case3 => exact Nat.le_refl _

theorem length_lt_of_read? {s r : List Char} {n : Numeral} (h : read? s = some (n, r)) :
    r.length < s.length := by
  simp only [read?] at h
  split at h
  · next hok =>
    simp only [Option.some.injEq, Prod.mk.injEq] at h
    obtain ⟨-, rfl⟩ := h
    have hne : (readMinus s).2.takeWhile Char.isDigit ≠ [] := by
      intro hnil
      simp [isWhole, isDigits, hnil] at hok
    have hs := length_readMinus s
    have hw := congrArg List.length
      (List.takeWhile_append_dropWhile (p := Char.isDigit) (l := (readMinus s).2))
    have hf := length_readFraction ((readMinus s).2.dropWhile Char.isDigit)
    have he := length_readExponent (readFraction ((readMinus s).2.dropWhile Char.isDigit)).2
    have hp := List.length_pos_iff.2 hne
    rw [List.length_append] at hw
    omega
  · simp at h

end Numeral

end CurlCode.Json

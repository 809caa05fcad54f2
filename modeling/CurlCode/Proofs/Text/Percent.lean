import CurlCode.Text.Percent
import Mathlib.Data.List.Basic

/-!
Percent escapes byte by byte. A text is encoded by encoding its bytes one after the other
(`percentEncode_eq_flatMap`), and decoding gives them back (`percentDecode_percentEncode`).
-/
namespace CurlCode.Text

/-- Text of kept characters and of escapes with two hexadecimal digits. -/
inductive Escaped (keep : Char → Bool) : List Char → Prop
  | nil : Escaped keep []
  | plain {c : Char} {s : List Char} (kept : keep c) (more : Escaped keep s) :
    Escaped keep (c :: s)
  | escape {high low : Char} {s : List Char} (first : isHexDigit high) (second : isHexDigit low)
    (more : Escaped keep s) : Escaped keep ('%' :: high :: low :: s)

theorem Escaped.append {keep : Char → Bool} {s t : List Char} (h : Escaped keep s)
    (k : Escaped keep t) : Escaped keep (s ++ t) := by
  induction h with
  | nil => exact k
  | plain kept _ ih => exact .plain kept ih
  | escape first second _ ih => exact .escape first second ih

theorem Escaped.of_mem {keep : Char → Bool} {s : List Char} (h : Escaped keep s) {c : Char}
    (hc : c ∈ s) : keep c ∨ c = '%' ∨ isHexDigit c := by
  induction h with
  | nil => simp at hc
  | plain kept _ ih =>
    rcases List.mem_cons.1 hc with rfl | hc
    · exact .inl kept
    · exact ih hc
  | escape first second _ ih =>
    simp only [List.mem_cons] at hc
    rcases hc with rfl | rfl | rfl | hc
    · exact .inr (.inl rfl)
    · exact .inr (.inr first)
    · exact .inr (.inr second)
    · exact ih hc

/-! ### One byte -/

/-- A digit of an escape is one byte, which has the value of the digit. -/
theorem upperHexDigit_reads : ∀ n < 16, isHexDigit (upperHexDigit n) ∧
    ∃ b, String.utf8EncodeChar (upperHexDigit n) = [b] ∧ hexByteValue? b = some n := by
  have hreads : ∀ n < 16, isHexDigit (upperHexDigit n) ∧
      String.utf8EncodeChar (upperHexDigit n) = [UInt8.ofNat (upperHexDigit n).toNat] ∧
      hexByteValue? (UInt8.ofNat (upperHexDigit n).toNat) = some n := by
    decide
  intro n hn
  obtain ⟨hdigit, hbytes, hvalue⟩ := hreads n hn
  exact ⟨hdigit, _, hbytes, hvalue⟩

theorem escaped_percentByte (keep : Char → Bool) (b : UInt8) : Escaped keep (percentByte b) := by
  have hb := b.toNat_lt
  exact .escape (upperHexDigit_reads _ (by omega)).1 (upperHexDigit_reads _ (by omega)).1 .nil

theorem percentDecode_cons_of_ne {b : UInt8} (h : b ≠ 0x25) (bs : List UInt8) :
    percentDecode (b :: bs) = b :: percentDecode bs := by
  match bs with
  | [] => rfl
  | [_] => rfl
  | _ :: _ :: _ => rw [percentDecode, if_neg h]

theorem percentDecode_percentByte (b : UInt8) (bs : List UInt8) :
    percentDecode ((percentByte b).flatMap String.utf8EncodeChar ++ bs) =
      b :: percentDecode bs := by
  have hb := b.toNat_lt
  obtain ⟨-, high, hhigh, hx⟩ := upperHexDigit_reads (b.toNat / 16) (by omega)
  obtain ⟨-, low, hlow, hy⟩ := upperHexDigit_reads (b.toNat % 16) (by omega)
  have hpercent : String.utf8EncodeChar '%' = [0x25] := by decide
  have hvalue : 16 * (b.toNat / 16) + b.toNat % 16 = b.toNat := by omega
  simp only [percentByte, List.flatMap_cons, List.flatMap_nil, hpercent, hhigh, hlow,
    List.cons_append, List.nil_append]
  rw [percentDecode, if_pos rfl, hx, hy]
  simp only [hvalue, UInt8.ofNat_toNat]

/-- A kept byte as it is, and any other as an escape. -/
def encodeByte (keep : Char → Bool) (b : UInt8) : List Char :=
  if keep (Char.ofNat b.toNat) then [Char.ofNat b.toNat] else percentByte b

theorem escaped_encodeByte (keep : Char → Bool) (b : UInt8) : Escaped keep (encodeByte keep b) := by
  rw [encodeByte]
  split
  · next hb => exact .plain hb .nil
  · exact escaped_percentByte keep b

/-- Of all bytes only ASCII characters may be kept, and never the sign of an escape. -/
structure Keepable (keep : Char → Bool) : Prop where
  ascii : ∀ c, keep c → c.toNat < 0x80
  percent : keep '%' = false

theorem toNat_ofNat_byte (b : UInt8) : (Char.ofNat b.toNat).toNat = b.toNat := by
  have hb := b.toNat_lt
  have hvalid : b.toNat.isValidChar := .inl (by omega)
  rw [Char.ofNat, dif_pos hvalid]
  rfl

theorem utf8EncodeChar_ascii {c : Char} (h : c.toNat < 0x80) :
    String.utf8EncodeChar c = [UInt8.ofNat c.toNat] := by
  have hsmall : c.val.toNat ≤ 127 := Nat.le_of_lt_succ h
  rw [String.utf8EncodeChar, if_pos hsmall]
  rfl

/-- The bytes of a character outside ASCII are outside ASCII. -/
theorem le_of_mem_utf8EncodeChar {c : Char} (h : 0x80 ≤ c.toNat) {b : UInt8}
    (hb : b ∈ String.utf8EncodeChar c) : 0x80 ≤ b.toNat := by
  have hlarge : ¬ c.val.toNat ≤ 127 := Nat.not_le.2 h
  rw [String.utf8EncodeChar, if_neg hlarge] at hb
  split at hb
  · simp only [List.mem_cons, List.not_mem_nil, or_false] at hb
    rcases hb with rfl | rfl <;> simp only [UInt8.toNat_ofNat'] <;> omega
  · split at hb
    · simp only [List.mem_cons, List.not_mem_nil, or_false] at hb
      rcases hb with rfl | rfl | rfl <;> simp only [UInt8.toNat_ofNat'] <;> omega
    · simp only [List.mem_cons, List.not_mem_nil, or_false] at hb
      rcases hb with rfl | rfl | rfl | rfl <;> simp only [UInt8.toNat_ofNat'] <;> omega

section Keepable

variable {keep : Char → Bool} (hkeep : Keepable keep)
include hkeep

theorem percentChar_eq_flatMap (c : Char) :
    percentChar keep c = (String.utf8EncodeChar c).flatMap (encodeByte keep) := by
  by_cases hc : c.toNat < 0x80
  · have hbyte : (UInt8.ofNat c.toNat).toNat = c.toNat := by
      rw [UInt8.toNat_ofNat']
      omega
    simp only [percentChar, encodeByte, utf8EncodeChar_ascii hc, List.flatMap_cons,
      List.flatMap_nil, List.append_nil, hbyte, Char.ofNat_toNat]
  · have hescape : ∀ b ∈ String.utf8EncodeChar c, percentByte b = encodeByte keep b := by
      intro b hb
      have hlarge := le_of_mem_utf8EncodeChar (Nat.not_lt.1 hc) hb
      refine (if_neg fun h => ?_).symm
      have hascii := hkeep.ascii _ h
      rw [toNat_ofNat_byte] at hascii
      omega
    have hother : ¬ keep c := fun h => hc (hkeep.ascii c h)
    rw [percentChar, if_neg hother]
    exact List.flatMap_congr hescape

theorem percentEncode_eq_flatMap (s : String) :
    (percentEncode keep s).toList = (utf8 s).flatMap (encodeByte keep) := by
  rw [percentEncode, String.toList_ofList, utf8, List.flatMap_assoc]
  exact List.flatMap_congr fun c _ => percentChar_eq_flatMap hkeep c

theorem percentDecode_encodeByte (b : UInt8) (bs : List UInt8) :
    percentDecode ((encodeByte keep b).flatMap String.utf8EncodeChar ++ bs) =
      b :: percentDecode bs := by
  rw [encodeByte]
  split
  · next hb =>
    have hascii := hkeep.ascii _ hb
    have hne : b ≠ 0x25 := by
      rintro rfl
      exact Bool.false_ne_true (hkeep.percent.symm.trans hb)
    rw [List.flatMap_cons, List.flatMap_nil, utf8EncodeChar_ascii hascii, toNat_ofNat_byte,
      UInt8.ofNat_toNat]
    exact percentDecode_cons_of_ne hne bs
  · exact percentDecode_percentByte b bs

/-- Decoding gives the bytes of the text back. -/
theorem percentDecode_percentEncode (s : String) :
    percentDecode (utf8 (percentEncode keep s)) = utf8 s := by
  rw [utf8, percentEncode_eq_flatMap hkeep]
  induction utf8 s with
  | nil => rfl
  | cons b bs ih =>
    rw [List.flatMap_cons, List.flatMap_append, percentDecode_encodeByte hkeep, ih]

/-- Encoded text needs no further escapes. -/
theorem escaped_percentEncode (s : String) : Escaped keep (percentEncode keep s).toList := by
  rw [percentEncode_eq_flatMap hkeep]
  induction utf8 s with
  | nil => exact .nil
  | cons b bs ih =>
    rw [List.flatMap_cons]
    exact (escaped_encodeByte keep b).append ih

end Keepable

end CurlCode.Text

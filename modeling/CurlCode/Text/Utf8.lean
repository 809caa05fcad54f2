import CurlCode.Text.Ascii

/-!
UTF-8. The strict reader accepts exactly the encodings of texts (`ofUtf8?_eq_some_iff`);
the lenient one puts U+FFFD for every ill-formed stretch, each as long as the start of
some well-formed sequence.
-/
namespace CurlCode.Text

def utf8 (s : String) : List UInt8 := s.toList.flatMap String.utf8EncodeChar

/-- The text that well-formed UTF-8 encodes. -/
def ofUtf8? (bytes : List UInt8) : Option String := String.fromUTF8? bytes.toByteArray

@[simp] theorem toByteArray_utf8 (s : String) : (utf8 s).toByteArray = s.toByteArray := by
  simp [utf8, ← List.utf8Encode.eq_1]

@[simp] theorem ofUtf8?_utf8 (s : String) : ofUtf8? (utf8 s) = some s := by
  simp [ofUtf8?, String.fromUTF8?, s.isValidUTF8, String.fromUTF8]

theorem ofUtf8?_eq_some_iff {bytes : List UInt8} {s : String} :
    ofUtf8? bytes = some s ↔ bytes.toByteArray = s.toByteArray := by
  simp only [ofUtf8?, String.fromUTF8?, Option.dite_none_right_eq_some, Option.some.injEq]
  constructor
  · rintro ⟨_, rfl⟩
    rfl
  · intro h
    exact ⟨h ▸ s.isValidUTF8, String.toByteArray_inj.1 h⟩

theorem ofUtf8?_eq_some_iff_utf8 {bytes : List UInt8} {s : String} :
    ofUtf8? bytes = some s ↔ bytes = utf8 s := by
  rw [ofUtf8?_eq_some_iff, ← toByteArray_utf8, List.toByteArray_inj]

theorem utf8_append (s t : String) : utf8 (s ++ t) = utf8 s ++ utf8 t := by simp [utf8]

theorem utf8_inj {s t : String} : utf8 s = utf8 t ↔ s = t := by
  rw [← ofUtf8?_eq_some_iff_utf8, ofUtf8?_utf8, Option.some.injEq]

/-- A sequence cut short: the bits so far, the bytes still due, and the range of the next one. -/
structure PartialChar where
  bits : Nat
  due : Nat
  low : Nat
  high : Nat
  deriving DecidableEq, Repr

def replacement : Char := '\uFFFD'

/-- What a byte does where a character may begin. -/
def leadByte (b : UInt8) : List Char × Option PartialChar :=
  let n := b.toNat
  if n < 0x80 then ([Char.ofNat n], none)
  else if 0xC2 ≤ n ∧ n ≤ 0xDF then ([], some ⟨n - 0xC0, 1, 0x80, 0xBF⟩)
  else if n = 0xE0 then ([], some ⟨0, 2, 0xA0, 0xBF⟩)
  else if n = 0xED then ([], some ⟨0xD, 2, 0x80, 0x9F⟩)
  else if 0xE1 ≤ n ∧ n ≤ 0xEF then ([], some ⟨n - 0xE0, 2, 0x80, 0xBF⟩)
  else if n = 0xF0 then ([], some ⟨0, 3, 0x90, 0xBF⟩)
  else if 0xF1 ≤ n ∧ n ≤ 0xF3 then ([], some ⟨n - 0xF0, 3, 0x80, 0xBF⟩)
  else if n = 0xF4 then ([], some ⟨4, 3, 0x80, 0x8F⟩)
  else ([replacement], none)

/-- Decode on from inside or between characters. -/
def lossyFrom (p : Option PartialChar) : List UInt8 → List Char
  | [] => if p.isSome then [replacement] else []
  | b :: bs =>
    match p with
    | none => (leadByte b).1 ++ lossyFrom (leadByte b).2 bs
    | some p =>
      if p.low ≤ b.toNat ∧ b.toNat ≤ p.high then
        let bits := 64 * p.bits + (b.toNat - 0x80)
        if p.due ≤ 1 then Char.ofNat bits :: lossyFrom none bs
        else lossyFrom (some ⟨bits, p.due - 1, 0x80, 0xBF⟩) bs
      else replacement :: ((leadByte b).1 ++ lossyFrom (leadByte b).2 bs)

/-- The text of any bytes, with U+FFFD for what is not UTF-8. -/
def ofUtf8Lossy (bytes : List UInt8) : String := String.ofList (lossyFrom none bytes)

end CurlCode.Text

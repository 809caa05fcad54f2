import CurlCode.Proofs.Form
import Mathlib.Data.List.TakeWhile
import Mathlib.Data.Set.List

/-!
Form data as bytes. The parser of web forms cuts the bytes of a text and decodes the parts
(`parse`). Reading the characters gives the fields whose bytes these are, and nothing if some
of them are no UTF-8; what the serializer writes is read back (`decode?_iff_parse`).
-/
namespace CurlCode.Form

open Text

/-! ### The parser of web forms -/

/-- A name or value: a plus sign is a space, and then the escapes are decoded. -/
def decodeBytes (bytes : List UInt8) : List UInt8 :=
  percentDecode (bytes.map fun b => if b = 0x2B then 0x20 else b)

/-- A piece is a name up to its first `=` and a value behind it. -/
def parsePiece (piece : List UInt8) : List UInt8 × List UInt8 :=
  (decodeBytes (piece.takeWhile (· ≠ 0x3D)), decodeBytes ((piece.dropWhile (· ≠ 0x3D)).drop 1))

/-- The pieces between the `&`, without empty ones. -/
def parse (bytes : List UInt8) : List (List UInt8 × List UInt8) :=
  ((bytes.splitOn 0x26).filter (· ≠ [])).map parsePiece

def fieldBytes (f : Field) : List UInt8 × List UInt8 := (utf8 f.name, utf8 f.value)

/-! ### Characters and their bytes -/

def charBytes (s : List Char) : List UInt8 := s.flatMap String.utf8EncodeChar

@[simp] theorem charBytes_nil : charBytes [] = [] := rfl
@[simp] theorem charBytes_cons (c : Char) (s : List Char) :
    charBytes (c :: s) = String.utf8EncodeChar c ++ charBytes s := rfl
@[simp] theorem charBytes_append (s t : List Char) :
    charBytes (s ++ t) = charBytes s ++ charBytes t := List.flatMap_append

theorem utf8_eq_charBytes (s : String) : utf8 s = charBytes s.toList := rfl

theorem utf8_ofList (s : List Char) : utf8 (String.ofList s) = charBytes s := by
  rw [utf8_eq_charBytes, String.toList_ofList]

theorem charBytes_eq_nil_iff {s : List Char} : charBytes s = [] ↔ s = [] := by
  cases s <;> simp

/-- The byte `b` stands for the ASCII character `m` and for nothing else. -/
structure IsByteOf (b : UInt8) (m : Char) : Prop where
  encode : String.utf8EncodeChar m = [b]
  other : ∀ c, c ≠ m → b ∉ String.utf8EncodeChar c

theorem isByteOf_of_ascii {b : UInt8} {m : Char} (h : m.toNat < 0x80)
    (hb : b = UInt8.ofNat m.toNat) : IsByteOf b m where
  encode := hb ▸ utf8EncodeChar_ascii h
  other := by
    intro c hc hmem
    subst hb
    by_cases hascii : c.toNat < 0x80
    · rw [utf8EncodeChar_ascii hascii, List.mem_singleton] at hmem
      have hcode := congrArg UInt8.toNat hmem
      simp only [UInt8.toNat_ofNat'] at hcode
      exact hc (Char.toNat_inj.1 (by omega))
    · have hlarge := le_of_mem_utf8EncodeChar (Nat.not_lt.1 hascii) hmem
      rw [UInt8.toNat_ofNat'] at hlarge
      omega

theorem splitOn_append_of_not_mem {b : UInt8} {u : List UInt8} (h : b ∉ u) (t : List UInt8) :
    (u ++ t).splitOn b = (t.splitOn b).modifyHead (u ++ ·) := by
  induction u with
  | nil =>
    rw [List.nil_append]
    cases t.splitOn b <;> rfl
  | cons a u ih =>
    simp only [List.mem_cons, not_or] at h
    rw [List.cons_append, List.splitOn_cons_eq_if_modifyHead,
      if_neg (by simpa using Ne.symm h.1), ih h.2]
    cases t.splitOn b <;> rfl

section IsByteOf

variable {b : UInt8} {m : Char} (hb : IsByteOf b m)
include hb

theorem not_mem_charBytes {s : List Char} (h : m ∉ s) : b ∉ charBytes s := by
  intro hmem
  obtain ⟨c, hc, hbyte⟩ := List.mem_flatMap.1 hmem
  exact hb.other c (fun he => h (he ▸ hc)) hbyte

theorem splitOn_charBytes (s : List Char) :
    (charBytes s).splitOn b = (pieces m s).map charBytes := by
  induction s with
  | nil => rfl
  | cons c s ih =>
    rw [pieces]
    split
    · next hc =>
      subst hc
      rw [charBytes_cons, hb.encode, List.singleton_append, List.splitOn_cons_eq_if_modifyHead,
        if_pos (beq_self_eq_true b), ih]
      rfl
    · next hc =>
      rw [charBytes_cons, splitOn_append_of_not_mem (hb.other c hc), ih]
      cases hp : pieces m s with
      | nil => exact absurd hp (pieces_ne_nil m s)
      | cons p ps => rfl

theorem cut_charBytes (s : List Char) :
    let parts := (cut? m s).getD (s, [])
    (charBytes s).takeWhile (· ≠ b) = charBytes parts.1 ∧
      ((charBytes s).dropWhile (· ≠ b)).drop 1 = charBytes parts.2 := by
  have hother {t : List Char} (h : m ∉ t) : ∀ a ∈ charBytes t, decide (a ≠ b) = true := by
    intro a ha
    refine decide_eq_true ?_
    rintro rfl
    exact not_mem_charBytes hb h ha
  cases hcut : cut? m s with
  | none =>
    have hs := hother (cut?_eq_none.1 hcut)
    exact ⟨List.takeWhile_eq_self_iff.2 hs, by rw [List.dropWhile_eq_nil_iff.2 hs]; rfl⟩
  | some parts =>
    obtain ⟨rfl, hfirst⟩ := cut?_eq_some hcut
    have hs := hother hfirst
    rw [charBytes_append, charBytes_cons, hb.encode, List.singleton_append,
      List.takeWhile_append_of_pos hs, List.dropWhile_append_of_pos hs]
    simp

theorem map_charBytes {b' : UInt8} {m' : Char} (hb' : String.utf8EncodeChar m' = [b'])
    (s : List Char) :
    charBytes (s.map fun c => if c = m then m' else c) =
      (charBytes s).map fun a => if a = b then b' else a := by
  induction s with
  | nil => rfl
  | cons c s ih =>
    rw [List.map_cons, charBytes_cons, charBytes_cons, List.map_append, ih]
    congr 1
    split
    · next hc =>
      subst hc
      simp [hb.encode, hb']
    · next hc =>
      refine ((List.map_congr_left fun a ha => if_neg ?_).trans (List.map_id _)).symm
      rintro rfl
      exact hb.other c hc ha

end IsByteOf

theorem ampersand_byte : IsByteOf 0x26 '&' := isByteOf_of_ascii (by decide) rfl
theorem equals_byte : IsByteOf 0x3D '=' := isByteOf_of_ascii (by decide) rfl
theorem plus_byte : IsByteOf 0x2B '+' := isByteOf_of_ascii (by decide) rfl

/-! ### Reading characters as reading bytes -/

theorem decodeText?_eq (s : List Char) : decodeText? s = ofUtf8? (decodeBytes (charBytes s)) := by
  have hspace : String.utf8EncodeChar ' ' = [0x20] := by decide
  rw [decodeText?, decodeBytes, utf8_ofList, map_charBytes plus_byte hspace]

theorem decodeField?_eq_some_iff {piece : List Char} {f : Field} :
    decodeField? piece = some f ↔ parsePiece (charBytes piece) = fieldBytes f := by
  obtain ⟨hname, hvalue⟩ := cut_charBytes equals_byte piece
  rw [parsePiece, hname, hvalue, fieldBytes, Prod.mk.injEq, ← ofUtf8?_eq_some_iff_utf8,
    ← ofUtf8?_eq_some_iff_utf8, ← decodeText?_eq, ← decodeText?_eq, decodeField?]
  cases f
  simp [Option.bind_eq_some_iff]

theorem mapM_eq_some_iff {f : α → Option β} {g : α → γ} {h : β → γ}
    (hf : ∀ a b, f a = some b ↔ g a = h b) {as : List α} {bs : List β} :
    as.mapM f = some bs ↔ as.map g = bs.map h := by
  induction as generalizing bs with
  | nil => cases bs <;> simp
  | cons a as ih =>
    cases bs <;> simp [Option.bind_eq_some_iff, hf, ih]

theorem decode?_eq_some_iff {s : String} {fields : List Field} :
    decode? s = some fields ↔ parse (utf8 s) = fields.map fieldBytes := by
  have hfilled (p : List Char) : decide (charBytes p ≠ []) = decide (p ≠ []) := by
    simp [charBytes_eq_nil_iff]
  rw [decode?, mapM_eq_some_iff fun _ _ => decodeField?_eq_some_iff, parse, utf8_eq_charBytes,
    splitOn_charBytes ampersand_byte, List.filter_map, List.map_map]
  simp only [Function.comp_def, hfilled]

theorem isValidUTF8_iff {bytes : List UInt8} :
    bytes.toByteArray.IsValidUTF8 ↔ ∃ s, bytes = utf8 s := by
  constructor
  · intro h
    exact ⟨String.fromUTF8 bytes.toByteArray h,
      ofUtf8?_eq_some_iff_utf8.1 (by simp [ofUtf8?, String.fromUTF8?, h])⟩
  · rintro ⟨s, rfl⟩
    rw [toByteArray_utf8]
    exact s.isValidUTF8

theorem mem_range_fieldBytes_iff {p : List UInt8 × List UInt8} :
    p ∈ Set.range fieldBytes ↔ p.1.toByteArray.IsValidUTF8 ∧ p.2.toByteArray.IsValidUTF8 := by
  rw [isValidUTF8_iff, isValidUTF8_iff]
  constructor
  · rintro ⟨f, rfl⟩
    exact ⟨⟨f.name, rfl⟩, f.value, rfl⟩
  · rintro ⟨⟨name, hname⟩, value, hvalue⟩
    exact ⟨⟨name, value⟩, by rw [fieldBytes, ← hname, ← hvalue]⟩

theorem decode?_eq_none_iff {s : String} :
    decode? s = none ↔ ∃ p ∈ parse (utf8 s),
      ¬ p.1.toByteArray.IsValidUTF8 ∨ ¬ p.2.toByteArray.IsValidUTF8 := by
  have hrange : (∃ fields, decode? s = some fields) ↔
      ∀ p ∈ parse (utf8 s), p ∈ Set.range fieldBytes := by
    have hmap := Set.ext_iff.1 (Set.range_list_map fieldBytes) (parse (utf8 s))
    simp only [decode?_eq_some_iff, eq_comm (a := parse (utf8 s))]
    exact hmap
  rw [← Option.not_isSome_iff_eq_none, Option.isSome_iff_exists, hrange]
  simp only [mem_range_fieldBytes_iff, not_forall, exists_prop, Decidable.not_and_iff_not_or_not]

/-! ### The serializer of web forms -/

def serializeText (s : String) : List Char := (utf8 s).flatMap formByte

def serialize (fields : List Field) : String :=
  String.ofList (joinWith '&' (fields.map (writeField serializeText)))

/-- The characters that are no escapes once a plus sign is a space. -/
def isPlainOrSpace (c : Char) : Bool := isPlain c || c == ' '

theorem keepable_isPlainOrSpace : Keepable isPlainOrSpace where
  ascii := by
    intro c h
    simp only [isPlainOrSpace, Bool.or_eq_true, beq_iff_eq] at h
    rcases h with h | rfl
    · exact keepable_isPlain.ascii c h
    · decide
  percent := by decide

theorem not_mem_formByte {c : Char} (hc : c = '&' ∨ c = '=') (b : UInt8) : c ∉ formByte b := by
  rw [formByte]
  split
  · rcases hc with rfl | rfl <;> decide
  · exact not_mem_of_escaped (escaped_encodeByte isPlain b) (by tauto)

theorem map_formByte (b : UInt8) :
    ((formByte b).map fun c => if c = '+' then ' ' else c) = encodeByte isPlainOrSpace b := by
  rw [formByte]
  split
  · next hspace =>
    subst hspace
    decide
  · next hspace =>
    have hchar : Char.ofNat b.toNat ≠ ' ' := by
      intro h
      have hcode := congrArg Char.toNat h
      rw [toNat_ofNat_byte] at hcode
      exact hspace (UInt8.toNat_inj.1 hcode)
    have hsame : encodeByte isPlainOrSpace b = encodeByte isPlain b := by
      simp [encodeByte, isPlainOrSpace, hchar]
    rw [hsame, map_spaced_of_escaped (escaped_encodeByte isPlain b)]

theorem decodeText?_serializeText (s : String) : decodeText? (serializeText s) = some s := by
  have hspaced : ((serializeText s).map fun c => if c = '+' then ' ' else c) =
      (percentEncode isPlainOrSpace s).toList := by
    rw [percentEncode_eq_flatMap keepable_isPlainOrSpace, serializeText, List.map_flatMap]
    exact List.flatMap_congr fun b _ => map_formByte b
  rw [decodeText?, hspaced, String.ofList_toList,
    percentDecode_percentEncode keepable_isPlainOrSpace, ofUtf8?_utf8]

theorem legible_serializeText : Legible serializeText where
  ampersand s h := by
    obtain ⟨b, -, hb⟩ := List.mem_flatMap.1 h
    exact not_mem_formByte (.inl rfl) b hb
  equals s h := by
    obtain ⟨b, -, hb⟩ := List.mem_flatMap.1 h
    exact not_mem_formByte (.inr rfl) b hb
  decoded := decodeText?_serializeText

/-- Reading the characters of a form comes to the same as reading its bytes: the fields are those
whose bytes are parsed, and there are none if and only if some name or value is no UTF-8. Fields
that are serialized are read back. -/
theorem decode?_iff_parse (s : String) :
    (∀ fields, decode? s = some fields ↔ parse (utf8 s) = fields.map fieldBytes) ∧
    (decode? s = none ↔ ∃ p ∈ parse (utf8 s),
      ¬ p.1.toByteArray.IsValidUTF8 ∨ ¬ p.2.toByteArray.IsValidUTF8) ∧
    ∀ fields, decode? (serialize fields) = some fields := by
  refine ⟨fun fields => decode?_eq_some_iff, decode?_eq_none_iff, fun fields => ?_⟩
  exact decode?_joinWith legible_serializeText String.toList_ofList

example : parse (utf8 "é+=%41%&&b") = [(utf8 "é ", utf8 "A%"), (utf8 "b", [])] := by decide

end CurlCode.Form

import CurlCode.Command.Walk
import CurlCode.Proofs.Text.Percent

/-!
Form data written and read back. Encoded text holds none of the characters that separate
fields, so a list of fields is recovered from its text, and an option's argument is encoded
behind the name that it may have (`encoding_decodes`).
-/
namespace CurlCode

open Text

namespace Form

theorem keepable_isPlain : Keepable isPlain where
  ascii := by
    intro c h
    simp only [isPlain, Bool.or_eq_true, beq_iff_eq] at h
    rcases h with (((h | rfl) | rfl) | rfl) | rfl
    · have hrange : (decide ('A'.val ≤ c.val ∧ c.val ≤ 'Z'.val) ||
          decide ('a'.val ≤ c.val) && decide (c.val ≤ 'z'.val) ||
          decide ('0'.val ≤ c.val) && decide (c.val ≤ '9'.val)) = true := h
      simp only [Bool.or_eq_true, Bool.and_eq_true, decide_eq_true_eq,
        UInt32.le_iff_toNat_le] at hrange
      have hcode : ((65 ≤ c.toNat ∧ c.toNat ≤ 90) ∨ 97 ≤ c.toNat ∧ c.toNat ≤ 122) ∨
          48 ≤ c.toNat ∧ c.toNat ≤ 57 := hrange
      omega
    all_goals decide
  percent := by decide

/-- The characters that mean something between fields. -/
theorem not_mem_of_escaped {s : List Char} (h : Escaped isPlain s) {c : Char}
    (hc : c = '&' ∨ c = '=' ∨ c = '+') : c ∉ s := by
  intro hmem
  have hkind := h.of_mem hmem
  revert hkind
  rcases hc with rfl | rfl | rfl <;> decide

theorem escaped_encodeText (s : String) : Escaped isPlain (encodeText s).toList :=
  escaped_percentEncode keepable_isPlain s

theorem percentDecode_encodeText (s : String) : percentDecode (utf8 (encodeText s)) = utf8 s :=
  percentDecode_percentEncode keepable_isPlain s

/-- Bytes in the encoding of URLs. A plain character stands for itself, and any other byte is
written as two hexadecimal digits in upper case behind a `%`. -/
inductive UrlEncoded : List UInt8 → List Char → Prop
  | nil : UrlEncoded [] []
  | plain {c : Char} {bs : List UInt8} {s : List Char} (kept : isPlain c)
    (more : UrlEncoded bs s) : UrlEncoded (UInt8.ofNat c.toNat :: bs) (c :: s)
  | escape {b : UInt8} {high low : Char} {bs : List UInt8} {s : List Char}
    (other : isPlain (Char.ofNat b.toNat) = false)
    (first : hexValue? high = some (b.toNat / 16)) (second : hexValue? low = some (b.toNat % 16))
    (upper : high.isLower = false ∧ low.isLower = false) (more : UrlEncoded bs s) :
    UrlEncoded (b :: bs) ('%' :: high :: low :: s)

theorem urlEncoded_encodeText (s : String) : UrlEncoded (utf8 s) (encodeText s).toList := by
  have hdigit : ∀ n < 16, hexValue? (upperHexDigit n) = some n ∧
      (upperHexDigit n).isLower = false := by
    decide
  rw [encodeText, percentEncode_eq_flatMap keepable_isPlain]
  induction utf8 s with
  | nil => exact .nil
  | cons b bs ih =>
    have hb := b.toNat_lt
    rw [List.flatMap_cons, encodeByte]
    cases hplain : isPlain (Char.ofNat b.toNat) with
    | true =>
      have h := UrlEncoded.plain hplain ih
      rwa [toNat_ofNat_byte, UInt8.ofNat_toNat] at h
    | false =>
      obtain ⟨hhigh, hhigh'⟩ := hdigit (b.toNat / 16) (by omega)
      obtain ⟨hlow, hlow'⟩ := hdigit (b.toNat % 16) (by omega)
      exact .escape hplain hhigh hlow ⟨hhigh', hlow'⟩ ih

/-! ### The serializer of web forms -/

/-- A byte in the query of a web form, where a space is `+`. -/
def formByte (b : UInt8) : List Char := if b = 0x20 then ['+'] else encodeByte isPlain b

/-- A space as an escape. -/
def respaced (c : Char) : List Char := if c = '+' then ['%', '2', '0'] else [c]

theorem flatMap_respaced {s : List Char} (h : '+' ∉ s) : s.flatMap respaced = s := by
  induction s with
  | nil => rfl
  | cons c s ih =>
    simp only [List.mem_cons, not_or] at h
    rw [List.flatMap_cons, ih h.2, respaced, if_neg (Ne.symm h.1)]
    rfl

theorem flatMap_formByte (b : UInt8) : (formByte b).flatMap respaced = encodeByte isPlain b := by
  rw [formByte]
  split
  · next hb =>
    subst hb
    decide
  · exact flatMap_respaced (not_mem_of_escaped (escaped_encodeByte isPlain b) (by simp))

/-- Text is encoded as in web forms, with `%20` for each `+`. -/
theorem encodeText_eq_respaced (s : String) :
    (encodeText s).toList = ((utf8 s).flatMap formByte).flatMap respaced := by
  rw [List.flatMap_assoc, encodeText, percentEncode_eq_flatMap keepable_isPlain]
  exact List.flatMap_congr fun b _ => (flatMap_formByte b).symm

/-! ### Fields -/

/-- A way of writing names and values so that they can be read back from between the signs that
separate them. -/
structure Legible (write : String → List Char) : Prop where
  ampersand : ∀ s, '&' ∉ write s
  equals : ∀ s, '=' ∉ write s
  decoded : ∀ s, decodeText? (write s) = some s

def writeField (write : String → List Char) (f : Field) : List Char :=
  write f.name ++ '=' :: write f.value

section Legible

variable {write : String → List Char} (hwrite : Legible write)
include hwrite

theorem decodeField?_writeField (f : Field) : decodeField? (writeField write f) = some f := by
  rw [decodeField?, writeField, cut?_append (hwrite.equals f.name)]
  simp only [Option.getD_some, hwrite.decoded]
  rfl

theorem filter_pieces_joinWith (fields : List Field) :
    (pieces '&' (joinWith '&' (fields.map (writeField write)))).filter (· ≠ []) =
      fields.map (writeField write) := by
  cases fields with
  | nil => rfl
  | cons f fields =>
    have hfree : ∀ p ∈ (f :: fields).map (writeField write), '&' ∉ p := by
      intro p hp
      obtain ⟨g, -, rfl⟩ := List.mem_map.1 hp
      simp [writeField, hwrite.ampersand]
    have hfilled : ∀ p ∈ (f :: fields).map (writeField write), p ≠ [] := by
      intro p hp
      obtain ⟨g, -, rfl⟩ := List.mem_map.1 hp
      simp [writeField]
    rw [pieces_joinWith (by simp) hfree]
    exact List.filter_eq_self.2 fun p hp => decide_eq_true (hfilled p hp)

/-- Fields are recovered in order, empty names and values included. -/
theorem decode?_joinWith {s : String} {fields : List Field}
    (hs : s.toList = joinWith '&' (fields.map (writeField write))) : decode? s = some fields := by
  rw [decode?, hs, filter_pieces_joinWith hwrite]
  clear hs
  induction fields with
  | nil => rfl
  | cons f fields ih =>
    rw [List.map_cons, List.mapM_cons, decodeField?_writeField hwrite, ih]
    rfl

end Legible

/-- Escaped text holds no plus sign that could be a space. -/
theorem map_spaced_of_escaped {s : List Char} (h : Escaped isPlain s) :
    (s.map fun c => if c = '+' then ' ' else c) = s := by
  refine (List.map_congr_left fun c hc => if_neg ?_).trans (List.map_id _)
  rintro rfl
  exact not_mem_of_escaped h (by simp) hc

theorem decodeText?_encodeText (s : String) : decodeText? (encodeText s).toList = some s := by
  rw [decodeText?, map_spaced_of_escaped (escaped_encodeText s), String.ofList_toList,
    percentDecode_encodeText, ofUtf8?_utf8]

theorem legible_encodeText : Legible fun s => (encodeText s).toList where
  ampersand s := not_mem_of_escaped (escaped_encodeText s) (by simp)
  equals s := not_mem_of_escaped (escaped_encodeText s) (by simp)
  decoded := decodeText?_encodeText

def encodeField (f : Field) : String := encodeText f.name ++ "=" ++ encodeText f.value

def encode (fields : List Field) : String := String.intercalate "&" (fields.map encodeField)

theorem toList_encode (fields : List Field) :
    (encode fields).toList =
      joinWith '&' (fields.map (writeField fun s => (encodeText s).toList)) := by
  have hfield (f : Field) :
      (encodeField f).toList = writeField (fun s => (encodeText s).toList) f := by
    simp [encodeField, writeField]
  induction fields with
  | nil => rfl
  | cons f fields ih =>
    cases fields with
    | nil => simp [encode, joinWith, hfield]
    | cons g fields =>
      rw [List.map_cons] at ih
      rw [List.map_cons, List.map_cons, joinWith, ← ih, ← hfield]
      simp [encode]

theorem decode?_encode (fields : List Field) : decode? (encode fields) = some fields :=
  decode?_joinWith legible_encodeText (toList_encode fields)

/-! ### Arguments -/

/-- The part of an argument that is kept, and the content behind it. An empty name goes with
its `=`. -/
inductive ArgumentCut : String → String → String → Prop
  | unnamed {content : String} (whole : '=' ∉ content.toList) : ArgumentCut content "" content
  | empty (content : String) : ArgumentCut ("=" ++ content) "" content
  | named {name : String} (filled : name ≠ "") (first : '=' ∉ name.toList) (content : String) :
    ArgumentCut (name ++ "=" ++ content) (name ++ "=") content

theorem encodeArgument_eq (argument : String) : ∃ kept content,
    ArgumentCut argument kept content ∧ encodeArgument argument = kept ++ encodeText content := by
  rw [encodeArgument]
  cases hcut : cut? '=' argument.toList with
  | none => exact ⟨"", argument, .unnamed (cut?_eq_none.1 hcut), by simp⟩
  | some parts =>
    obtain ⟨name, content⟩ := parts
    obtain ⟨htext, hfirst⟩ := cut?_eq_some hcut
    cases name with
    | nil =>
      have hargument : argument = "=" ++ String.ofList content := by
        rw [← String.toList_inj]
        simp [htext]
      exact ⟨"", String.ofList content, hargument ▸ .empty _, by simp⟩
    | cons c name =>
      have hargument : argument = String.ofList (c :: name) ++ "=" ++ String.ofList content := by
        rw [← String.toList_inj]
        simp [htext]
      refine ⟨String.ofList (c :: name) ++ "=", String.ofList content, ?_, rfl⟩
      rw [hargument]
      refine .named ?_ (by rwa [String.toList_ofList]) _
      simp [← String.toList_inj]

/-- Encoding is that of web forms with `%20` for a space. Fields that are encoded and joined are
decoded to themselves, and the content of an argument becomes plain characters and escapes that
decode to it, behind what is kept of its name. -/
theorem encoding_decodes :
    (∀ s : String, (encodeText s).toList = ((utf8 s).flatMap formByte).flatMap respaced) ∧
    (∀ fields : List Field, decode? (String.intercalate "&"
      (fields.map fun f => encodeText f.name ++ "=" ++ encodeText f.value)) = some fields) ∧
    ∀ (limit : Nat) (w : Walk) (token argument : String), ∃ kept content,
      ArgumentCut argument kept content ∧
      w.readValued limit .dataUrlEncode token argument =
        .ok { w with data := some (kept ++ encodeText content) } ∧
      Escaped isPlain (encodeText content).toList ∧
      percentDecode (utf8 (encodeText content)) = utf8 content := by
  refine ⟨encodeText_eq_respaced, decode?_encode, ?_⟩
  intro limit w token argument
  obtain ⟨kept, content, hcut, hencode⟩ := encodeArgument_eq argument
  refine ⟨kept, content, hcut, ?_, escaped_encodeText content, percentDecode_encodeText content⟩
  rw [Walk.readValued, hencode]

example : encode [⟨"a b", "é&"⟩, ⟨"", "=+"⟩] = "a%20b=%C3%A9%26&=%3D%2B" := by decide

end Form

end CurlCode

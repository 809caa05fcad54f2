import CurlCode.Json.Numeral

/-!
The text of a numeral is read back, with whatever follows that cannot go on with it
(`read?_text`).
-/
namespace CurlCode.Json.Numeral

/-- The characters that numerals are written with. -/
def isNumeralChar (c : Char) : Bool :=
  c.isDigit || c == '-' || c == '+' || c == '.' || c == 'e' || c == 'E'

/-- A text that goes on with no numeral. -/
def Ends (s : List Char) : Prop := ∀ c ∈ s.head?, isNumeralChar c = false

theorem ends_nil : Ends [] := by simp [Ends]

theorem all_digits {ds : List Char} (h : isDigits ds) : ∀ c ∈ ds, c.isDigit := by
  simp only [isDigits, Bool.and_eq_true, List.all_eq_true] at h
  exact h.2

theorem digits_ne_nil {ds : List Char} (h : isDigits ds) : ds ≠ [] := by
  rintro rfl
  simp [isDigits] at h

theorem isDigits_whole (n : Numeral) : isDigits n.whole := by
  have h := n.whole_ok
  simp only [isWhole, Bool.and_eq_true] at h
  exact h.1

theorem span_digits {ds r : List Char} (h : isDigits ds) (hr : ∀ c ∈ r.head?, c.isDigit = false) :
    (ds ++ r).takeWhile Char.isDigit = ds ∧ (ds ++ r).dropWhile Char.isDigit = r := by
  have hall := all_digits h
  have hnone : r.takeWhile Char.isDigit = [] ∧ r.dropWhile Char.isDigit = r := by
    cases r with
    | nil => exact ⟨rfl, rfl⟩
    | cons c r => simp [hr c (by simp)]
  rw [List.takeWhile_append_of_pos hall, List.dropWhile_append_of_pos hall, hnone.1, hnone.2]
  simp

/-- The fraction as it is written. -/
def fractionText : Option (List Char) → List Char
  | some ds => '.' :: ds
  | none => []

/-- The exponent as it is written. -/
def exponentText : Option (Bool × List Char) → List Char
  | some (negative, ds) => 'e' :: (if negative then '-' else '+') :: ds
  | none => []

theorem text_eq (n : Numeral) : n.text =
    (if n.negative then ['-'] else []) ++ (n.whole ++ (fractionText n.fraction ++
      exponentText n.exponent)) := by
  rw [text]
  cases n.fraction <;> cases n.exponent <;> simp [fractionText, exponentText]

theorem text_ne_nil (n : Numeral) : n.text ≠ [] := by
  have hwhole := digits_ne_nil n.isDigits_whole
  rw [text_eq]
  simp [hwhole]

theorem isNumeralChar_of_mem {n : Numeral} {c : Char} (h : c ∈ n.text) : isNumeralChar c := by
  rw [text_eq] at h
  simp only [List.mem_append] at h
  have hdigit : c.isDigit → isNumeralChar c := by
    intro hc
    simp [isNumeralChar, hc]
  rcases h with h | h | h | h
  · split at h
    · rw [List.mem_singleton.1 h]
      decide
    · simp at h
  · exact hdigit (all_digits n.isDigits_whole c h)
  · have hok := n.fraction_ok
    cases hf : n.fraction with
    | none => simp [hf, fractionText] at h
    | some ds =>
      rw [hf] at h hok
      rcases List.mem_cons.1 h with rfl | h
      · decide
      · exact hdigit (all_digits hok c h)
  · have hok := n.exponent_ok
    cases he : n.exponent with
    | none => simp [he, exponentText] at h
    | some e =>
      rw [he] at h hok
      rcases List.mem_cons.1 h with rfl | h
      · decide
      rcases List.mem_cons.1 h with rfl | h
      · cases e.1 <;> decide
      · exact hdigit (all_digits hok c h)

theorem not_digit_of_ends {s : List Char} (h : Ends s) : ∀ c ∈ s.head?, c.isDigit = false := by
  intro c hc
  have := h c hc
  simp only [isNumeralChar, Bool.or_eq_false_iff] at this
  simp [this]

theorem readMinus_text (n : Numeral) (s : List Char) :
    readMinus ((if n.negative then ['-'] else []) ++ (n.whole ++ s)) =
      (n.negative, n.whole ++ s) := by
  cases n.negative with
  | true => rfl
  | false =>
    obtain ⟨d, ds, hw⟩ := List.exists_cons_of_ne_nil (digits_ne_nil n.isDigits_whole)
    have hd : d.isDigit := all_digits n.isDigits_whole d (by simp [hw])
    have hminus : d ≠ '-' := by
      rintro rfl
      revert hd
      decide
    rw [hw]
    simp [readMinus, hminus]

theorem readExponent_text {e : Option (Bool × List Char)} (hok : e.all fun e => isDigits e.2)
    {r : List Char} (hr : Ends r) : readExponent (exponentText e ++ r) = (e, r) := by
  cases e with
  | none =>
    cases r with
    | nil => rfl
    | cons c r =>
      have hc := hr c rfl
      simp only [isNumeralChar, Bool.or_eq_false_iff, beq_eq_false_iff_ne] at hc
      simp [exponentText, readExponent, hc.2, hc.1.2]
  | some e =>
    obtain ⟨negative, ds⟩ := e
    have hspan := span_digits (show isDigits ds from hok) (not_digit_of_ends hr)
    cases negative <;> simp [exponentText, readExponent, readSign, hspan]

theorem readFraction_text {f : Option (List Char)} (hok : f.all isDigits) {s : List Char}
    (hs : ∀ c ∈ s.head?, c.isDigit = false ∧ c ≠ '.') :
    readFraction (fractionText f ++ s) = (f, s) := by
  cases f with
  | none =>
    cases s with
    | nil => rfl
    | cons c s => simp [fractionText, readFraction, (hs c rfl).2]
  | some ds =>
    have hspan := span_digits (show isDigits ds from hok) fun c hc => (hs c hc).1
    simp [fractionText, readFraction, hspan]

theorem read?_text (n : Numeral) {r : List Char} (hr : Ends r) :
    read? (n.text ++ r) = some (n, r) := by
  -- after the whole part and after the fraction stands no digit and no point
  have hexponent : ∀ c ∈ (exponentText n.exponent ++ r).head?, c.isDigit = false ∧ c ≠ '.' := by
    intro c hc
    cases he : n.exponent with
    | none =>
      rw [he] at hc
      have h := hr c hc
      simp only [isNumeralChar, Bool.or_eq_false_iff, beq_eq_false_iff_ne] at h
      simp [h]
    | some e =>
      simp only [he, exponentText, List.cons_append, List.head?_cons, Option.mem_some_iff] at hc
      subst hc
      decide
  have hfraction : ∀ c ∈ (fractionText n.fraction ++ (exponentText n.exponent ++ r)).head?,
      c.isDigit = false := by
    intro c hc
    cases hf : n.fraction with
    | none =>
      rw [hf] at hc
      exact (hexponent c hc).1
    | some ds =>
      simp only [hf, fractionText, List.cons_append, List.head?_cons, Option.mem_some_iff] at hc
      subst hc
      decide
  have hspan := span_digits n.isDigits_whole hfraction
  rw [text_eq]
  simp only [List.append_assoc, read?, readMinus_text, hspan,
    readFraction_text n.fraction_ok hexponent, readExponent_text n.exponent_ok hr]
  rw [dif_pos ⟨n.whole_ok, n.fraction_ok, n.exponent_ok⟩]

theorem ofText?_text (n : Numeral) : ofText? n.text = some n := by
  have h := read?_text n ends_nil
  rw [List.append_nil] at h
  simp [ofText?, h]

end CurlCode.Json.Numeral

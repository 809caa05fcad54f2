import CurlCode.Proofs.Command.Outcome
import CurlCode.Proofs.Shell.Boundaries
import Mathlib.Algebra.GroupWithZero.Nat

/-!
The words of a command line take no more bytes than the line, separators counted (`words_bytes`).
The bytes of a text pay for the characters it adds to the words and for each word it ends; what a
mode holds back is paid for and not yet spent (`Mode.react_cost`).
-/
namespace CurlCode.Text

/-- The bytes of characters in UTF-8. -/
def byteCount (text : List Char) : Nat := (text.map Char.utf8Size).sum

@[simp] theorem byteCount_nil : byteCount [] = 0 := rfl
@[simp] theorem byteCount_cons (c : Char) (text : List Char) :
    byteCount (c :: text) = c.utf8Size + byteCount text := rfl
@[simp] theorem byteCount_append (a b : List Char) :
    byteCount (a ++ b) = byteCount a + byteCount b := by
  simp [byteCount]

theorem length_le_byteCount (text : List Char) : text.length ≤ byteCount text := by
  induction text with
  | nil => exact Nat.le_refl 0
  | cons c text ih =>
    have hc := c.utf8Size_pos
    simp only [List.length_cons, byteCount_cons]
    omega

theorem utf8ByteSize_ofList (text : List Char) :
    (String.ofList text).utf8ByteSize = byteCount text := by
  induction text with
  | nil => rfl
  | cons c text ih =>
    have hcons : String.ofList (c :: text) = String.singleton c ++ String.ofList text := by
      rw [← String.toList_inj]
      simp
    rw [hcons, String.utf8ByteSize_append, String.utf8ByteSize_singleton, ih, byteCount_cons]

theorem utf8ByteSize_eq (s : String) : s.utf8ByteSize = byteCount s.toList := by
  rw [← utf8ByteSize_ofList, String.ofList_toList]

theorem sum_utf8ByteSize (words : List String) :
    (words.map String.utf8ByteSize).sum = byteCount (words.flatMap String.toList) := by
  induction words with
  | nil => rfl
  | cons w words ih => simp [ih, utf8ByteSize_eq]

theorem hexValue?_lt {d : Char} {v : Nat} (h : hexValue? d = some v) : v < 16 := by
  have hzero : '0'.toNat = 48 := rfl
  have ha : 'a'.toNat = 97 := rfl
  have hA : 'A'.toNat = 65 := rfl
  rw [hexValue?] at h
  split_ifs at h with hdigit hlower hupper
  · have hnine : d.toNat ≤ 57 := by
      simp only [Char.isDigit, Bool.and_eq_true, decide_eq_true_eq] at hdigit
      exact hdigit.2
    injection h with h
    omega
  · have hf : d.toNat ≤ 102 := hlower.2
    injection h with h
    omega
  · have hF : d.toNat ≤ 70 := hupper.2
    injection h with h
    omega

/-- The character that one digit names has one byte. -/
theorem utf8Size_of_digit {d c : Char} (h : (hexNumber? [d]).bind charOf? = some c) :
    c.utf8Size = 1 := by
  have hnumber : hexNumber? [d] = hexValue? d := by
    rw [hexNumber?_eq_foldl (List.cons_ne_nil d [])]
    cases hv : hexValue? d <;> simp [withHexDigit, hv]
  have hsmall : ∀ n < 16, (Char.ofNat n).utf8Size = 1 := by decide
  rw [hnumber] at h
  obtain ⟨n, hn, hc⟩ := Option.bind_eq_some_iff.1 h
  rw [charOf?] at hc
  split_ifs at hc
  injection hc with hc
  rw [← hc]
  exact hsmall n (hexValue?_lt hn)

end CurlCode.Text

namespace CurlCode.Shell

open CurlCode.Text
open Scanner

/-! ### What a reaction costs -/

/-- The bytes that changes add to the words, with one byte for each word that ends. -/
def cost (actions : List Action) : Nat :=
  byteCount (actions.flatMap Action.letters) + actions.count .endWord

@[simp] theorem cost_nil : cost [] = 0 := rfl
@[simp] theorem cost_push (c : Char) : cost [.push c] = c.utf8Size := by
  simp [cost, Action.letters]
@[simp] theorem cost_append (a b : List Action) : cost (a ++ b) = cost a + cost b := by
  simp only [cost, List.flatMap_append, byteCount_append, List.count_append]
  omega

/-- An unknown escape keeps its backslash. -/
theorem cost_guarded (c : Char) : cost [.push '\\', .push c] = 1 + c.utf8Size := by
  have hbackslash : '\\'.utf8Size = 1 := rfl
  have hsplit := cost_append [.push '\\'] [.push c]
  rwa [cost_push, cost_push, hbackslash] at hsplit

theorem count_settling (m : Mode) : m.settling.count .endWord = 0 := by
  simp [Mode.settling, List.count_eq_zero]

theorem cost_settling (m : Mode) : cost m.settling = byteCount m.leftover := by
  rw [cost, letters_settling, count_settling, Nat.add_zero]

namespace Mode

/-- The characters read that have not changed the words yet. -/
def pending : Mode → List Char
  | .bareEscape | .doubleEscape | .ansiEscape => ['\\']
  | .bareReturn => ['\\', '\r']
  | .dollar => ['$']
  | .codePoint form digits => '\\' :: form.letter :: digits
  | .bare | .single | .double | .ansi => []

/-- A code point needs no more bytes than its escape: with two digits there are four already. -/
theorem codePointText_le (form : CodePointForm) (digits : List Char) :
    byteCount (codePointText form digits) ≤ byteCount ('\\' :: form.letter :: digits) := by
  rw [codePointText]
  split
  · next c hc =>
    have hlength := length_le_byteCount ('\\' :: form.letter :: digits)
    have hfour := c.utf8Size_le_four
    simp only [byteCount_cons, byteCount_nil, List.length_cons] at hlength ⊢
    rcases digits with _ | ⟨d, _ | ⟨e, digits⟩⟩
    · simp [hexNumber?] at hc
    · have hone := utf8Size_of_digit hc
      omega
    · simp only [List.length_cons] at hlength
      omega
  · exact Nat.le_refl _

theorem leftover_le (m : Mode) : byteCount m.leftover ≤ byteCount m.pending := by
  cases m with
  | bareReturn => decide
  | codePoint form digits => exact codePointText_le form digits
  | _ => exact Nat.le_refl _

theorem reactBare_cost (c : Char) :
    cost (reactBare c).actions + byteCount (reactBare c).next.pending ≤ c.utf8Size := by
  rw [reactBare]
  split_ifs
  · exact Nat.zero_le _
  · exact Nat.zero_le _
  · exact c.utf8Size_pos
  · exact c.utf8Size_pos
  · exact c.utf8Size_pos
  · exact (cost_push c).le

theorem reactAnsi_cost (c : Char) :
    cost (reactAnsi c).actions + byteCount (reactAnsi c).next.pending ≤ c.utf8Size := by
  rw [reactAnsi]
  split_ifs
  · exact Nat.zero_le _
  · exact c.utf8Size_pos
  · exact (cost_push c).le

theorem reactAnsiEscape_cost (c : Char) :
    cost (reactAnsiEscape c).actions + byteCount (reactAnsiEscape c).next.pending ≤
      1 + c.utf8Size := by
  -- an escape of one letter writes one of its two bytes, one of a code point holds both back
  have hletter : 1 ≤ 1 + c.utf8Size := Nat.le_add_right 1 _
  have hform : 1 + 1 ≤ 1 + c.utf8Size := Nat.add_le_add_left c.utf8Size_pos 1
  rw [reactAnsiEscape]
  split_ifs
  · exact hletter
  · exact hletter
  · exact hletter
  · exact hletter
  · exact hform
  · exact hform
  · exact hform
  · exact (cost_push c).le.trans (Nat.le_add_left _ _)
  · exact (cost_guarded c).le

/-- A character pays for what it does, with what was held back before it. -/
theorem react_cost (m : Mode) (c : Char) :
    cost (m.react c).actions + byteCount (m.react c).next.pending ≤
      byteCount m.pending + c.utf8Size := by
  have hafter (r : Reaction) (h : cost r.actions + byteCount r.next.pending ≤ c.utf8Size) :
      cost (r.after m.settling).actions + byteCount (r.after m.settling).next.pending ≤
        byteCount m.pending + c.utf8Size := by
    have hleft := leftover_le m
    simp only [Reaction.after, cost_append, cost_settling]
    omega
  have hone : 1 ≤ byteCount m.pending + c.utf8Size := Nat.le_add_left_of_le c.utf8Size_pos
  have hpush : cost [.push c] ≤ byteCount m.pending + c.utf8Size :=
    (cost_push c).le.trans (Nat.le_add_left _ _)
  cases m with
  | bare => exact (reactBare_cost c).trans (Nat.le_add_left _ _)
  | bareEscape =>
    simp only [react]
    split_ifs
    · exact hone
    · exact Nat.add_le_add_left c.utf8Size_pos 1
    · exact hpush
  | bareReturn =>
    simp only [react]
    split_ifs
    · exact hone
    · exact hafter (reactBare c) (reactBare_cost c)
  | dollar =>
    simp only [react]
    split_ifs
    · exact Nat.zero_le _
    · exact hafter (reactBare c) (reactBare_cost c)
  | single =>
    simp only [react]
    split_ifs
    · exact Nat.zero_le _
    · exact hpush
  | double =>
    simp only [react]
    split_ifs
    · exact Nat.zero_le _
    · exact hone
    · exact hpush
  | doubleEscape =>
    simp only [react]
    split_ifs
    · exact hpush
    · exact Nat.zero_le _
    · exact (cost_guarded c).le
  | ansi => exact (reactAnsi_cost c).trans (Nat.le_add_left _ _)
  | ansiEscape => exact reactAnsiEscape_cost c
  | codePoint form digits =>
    simp only [react]
    split_ifs
    · simp only [pending, byteCount_cons, byteCount_append, byteCount_nil, cost_nil]
      omega
    · exact hafter (reactAnsi c) (reactAnsi_cost c)

/-- A stretch of text pays for what it does. -/
theorem actions_cost (m : Mode) (text : List Char) :
    cost (m.actions text) + byteCount (m.after text).pending ≤
      byteCount m.pending + byteCount text := by
  -- what one character leaves held back is the credit of the rest
  induction text generalizing m with
  | nil => simp [actions, after]
  | cons c text ih =>
    have hc := react_cost m c
    have htext := ih (m.react c).next
    have hafter : m.after (c :: text) = (m.react c).next.after text := rfl
    rw [hafter, actions, cost_append, byteCount_cons]
    omega

end Mode

/-! ### The bytes of the words -/

theorem size_endWord (s : Scanner) : s.endWord.words.size ≤ s.words.size + 1 := by
  cases h : s.word <;> simp [endWord, h]

theorem size_apply (a : Action) (s : Scanner) :
    (a.apply s).words.size ≤ s.words.size + [a].count .endWord := by
  cases a with
  | push c => exact Nat.le_refl _
  | openWord => exact Nat.le_refl _
  | endWord => exact size_endWord s

theorem size_perform (actions : List Action) (s : Scanner) :
    (perform actions s).words.size ≤ s.words.size + actions.count .endWord := by
  induction actions generalizing s with
  | nil => exact Nat.le_refl _
  | cons a actions ih =>
    have hfirst := size_apply a s
    have hrest := ih (a.apply s)
    have hcount : (a :: actions).count .endWord =
        [a].count .endWord + actions.count .endWord := by
      rw [← List.count_append, List.singleton_append]
    rw [perform_cons]
    omega

/-- Every word but the last has ended in the text. -/
theorem length_finish_scan (s : Scanner) (text : List Char) :
    (scan s text).finish.length ≤ s.words.size + (s.mode.actions text).count .endWord + 1 := by
  have hwords : (scan s text).words = (perform (s.mode.actions text) s).words := by
    rw [scan_eq]
    rfl
  have hend := size_endWord (perform (scan s text).mode.settling (scan s text))
  have hsettle := size_perform (scan s text).mode.settling (scan s text)
  have hscan := size_perform (s.mode.actions text) s
  rw [count_settling, hwords] at hsettle
  rw [finish_eq, Array.length_toList]
  omega

/-- What a text writes and the words it ends, against its bytes. -/
theorem output_le (m : Mode) (text : List Char) :
    byteCount (m.output text) + (m.actions text).count .endWord ≤
      byteCount m.pending + byteCount text := by
  have hcost := Mode.actions_cost m text
  have hleft := Mode.leftover_le (m.after text)
  simp only [cost, Mode.output, byteCount_append] at hcost ⊢
  omega

theorem output_cons (m : Mode) (c : Char) (text : List Char) :
    m.output (c :: text) =
      (m.react c).actions.flatMap Action.letters ++ (m.react c).next.output text := by
  simp [Mode.output, Mode.actions, Mode.after]

/-- A backslash that is not protected is written or held back; what was held back before it
stands for itself. -/
theorem react_backslash_bytes {m : Mode} (hfree : m.isEscape = false) :
    byteCount ((m.react '\\').actions.flatMap Action.letters) +
      byteCount (m.react '\\').next.pending = byteCount m.leftover + 1 := by
  cases m with
  | bareEscape | doubleEscape | ansiEscape => cases hfree
  | codePoint form digits =>
    have hhex : isHexDigit '\\' = false := by decide
    have hreact : Mode.react (.codePoint form digits) '\\' =
        ⟨Mode.settling (.codePoint form digits) ++ [], .ansiEscape⟩ := by
      simp [Mode.react, hhex, Mode.reactAnsi, Reaction.after]
    rw [hreact, List.append_nil, letters_settling]
    rfl
  | _ => decide

/-- Wherever it stands, an escape writes no more bytes than it has. -/
theorem output_escape_le {m : Mode} (hfree : m.isEscape = false) (escape : List Char) :
    byteCount (m.output ('\\' :: escape)) ≤
      byteCount m.leftover + byteCount ('\\' :: escape) := by
  have hbackslash : '\\'.utf8Size = 1 := rfl
  have hfirst := react_backslash_bytes hfree
  have hrest := output_le (m.react '\\').next escape
  rw [output_cons, byteCount_append, byteCount_cons]
  omega

/-- The bytes of the words of a text. -/
def wordBytes (text : String) : Nat := ((words text).map String.utf8ByteSize).sum

theorem wordBytes_eq (text : String) :
    wordBytes text = byteCount (Mode.bare.output text.toList) := by
  rw [wordBytes, sum_utf8ByteSize, words, letters_finish_scan]
  rfl

/-- The words and a separator between each two of them fit into the text. -/
theorem wordBytes_le (text : String) :
    wordBytes text + ((words text).length - 1) ≤ text.utf8ByteSize := by
  have hlength : (words text).length ≤ 0 + (Mode.bare.actions text.toList).count .endWord + 1 :=
    length_finish_scan start text.toList
  have houtput : byteCount (Mode.bare.output text.toList) +
      (Mode.bare.actions text.toList).count .endWord ≤ 0 + byteCount text.toList :=
    output_le .bare text.toList
  rw [wordBytes_eq, utf8ByteSize_eq]
  omega

theorem wordBytes_escape {text : String} (hfree : (scan start text.toList).mode.isEscape = false)
    (escape : String) :
    wordBytes (text ++ "\\" ++ escape) ≤ wordBytes text + ("\\" ++ escape).utf8ByteSize := by
  have hline : ("\\" ++ escape).toList = '\\' :: escape.toList := by simp
  have hbefore : wordBytes text = byteCount (scan start text.toList).letters +
      byteCount (scan start text.toList).mode.leftover := by
    rw [wordBytes, sum_utf8ByteSize, words, letters_finish, byteCount_append]
  have hall : wordBytes (text ++ "\\" ++ escape) = byteCount (scan start text.toList).letters +
      byteCount ((scan start text.toList).mode.output ('\\' :: escape.toList)) := by
    rw [wordBytes, sum_utf8ByteSize, words, String.append_assoc, String.toList_append, hline,
      scan_append, letters_finish_scan, byteCount_append]
  have hescape := output_escape_le hfree escape.toList
  rw [hall, hbefore, utf8ByteSize_eq, hline]
  omega

/-- The words of a text, with a byte for each separator, have at most the bytes of the text, and
so at most those that the limit admits; a stretch of text that begins with a backslash adds at
most its own bytes. -/
theorem words_bytes (text : String) :
    wordBytes text + ((words text).length - 1) ≤ text.utf8ByteSize ∧
    (∀ escape : String, (scan start text.toList).mode.isEscape = false →
      wordBytes (text ++ "\\" ++ escape) ≤ wordBytes text + ("\\" ++ escape).utf8ByteSize) ∧
    (∀ limits : Limits, Command.parse limits text ≠ .error (.tooLong limits.inputBytes) →
      wordBytes text + ((words text).length - 1) ≤ limits.inputBytes) := by
  refine ⟨wordBytes_le text, fun escape hfree => wordBytes_escape hfree escape, ?_⟩
  intro limits hshort
  have hfits : text.utf8ByteSize ≤ limits.inputBytes :=
    Nat.not_lt.1 (mt (Command.tooLong_iff limits text).2 hshort)
  exact (wordBytes_le text).trans hfits

/-- A surrogate names no character, so its escape is kept as it is, byte by byte. -/
theorem words_bytes_surrogate :
    wordBytes ("a '' $'" ++ "\\" ++ "ud800") ≤
        wordBytes "a '' $'" + ("\\" ++ "ud800").utf8ByteSize ∧
      wordBytes "a '' $'" + ((words "a '' $'").length - 1) ≤ 7 :=
  ⟨(words_bytes "a '' $'").2.1 "ud800" (by decide),
    (words_bytes "a '' $'").2.2 ⟨7, 1⟩ (by decide)⟩

end CurlCode.Shell

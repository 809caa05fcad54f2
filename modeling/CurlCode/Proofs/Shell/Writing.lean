import CurlCode.Proofs.Text.Hex
import CurlCode.Shell.Words

/-!
How words can be written so that the scanner reads them back. A stretch of text
`Writes` a value when scanning it outside quotes appends the value to the word being
read, whatever follows. Segments of one word compose (`Writes.append`), and words
compose across separators (`finish_scan_words`).
-/
namespace CurlCode.Shell

open CurlCode.Text

namespace Scanner

/-- Go on with the word being read, or begin one. -/
def append (text : List Char) (s : Scanner) : Scanner :=
  { s with word := some (s.word.getD "" ++ String.ofList text) }

@[simp] theorem mode_append (text : List Char) (s : Scanner) : (s.append text).mode = s.mode := rfl
@[simp] theorem mode_enter (m : Mode) (s : Scanner) : (s.enter m).mode = m := rfl
@[simp] theorem enter_enter (m n : Mode) (s : Scanner) : (s.enter m).enter n = s.enter n := rfl
@[simp] theorem append_enter (text : List Char) (m : Mode) (s : Scanner) :
    (s.enter m).append text = (s.append text).enter m := rfl

theorem enter_of_mode {m : Mode} {s : Scanner} (h : s.mode = m) : s.enter m = s := by
  subst h
  rfl

@[simp] theorem append_append (a b : List Char) (s : Scanner) :
    (s.append a).append b = s.append (a ++ b) := by
  simp [append, String.append_assoc]

theorem push_eq_append (c : Char) (s : Scanner) : s.push c = s.append [c] := by
  have h : (s.word.getD "").push c = s.word.getD "" ++ String.ofList [c] := by
    rw [← String.toList_inj]
    simp
  simp only [push, append, h]

theorem openWord_eq_append (s : Scanner) : s.openWord = s.append [] := by
  simp [openWord, append]

@[simp] theorem mode_endWord (s : Scanner) : s.endWord.mode = s.mode := by
  rw [endWord]
  split <;> rfl

@[simp] theorem endWord_endWord (s : Scanner) : s.endWord.endWord = s.endWord := by
  cases h : s.word <;> simp [endWord, h]

end Scanner

open Scanner

/-- Read outside quotes, `text` adds `value` to the word. -/
def Writes (text value : List Char) : Prop :=
  ∀ (s : Scanner) (rest : List Char), s.mode = .bare →
    scan s (text ++ rest) = scan (s.append value) rest

theorem Writes.append {a b u v : List Char} (h : Writes a u) (k : Writes b v) :
    Writes (a ++ b) (u ++ v) := by
  intro s rest hs
  rw [List.append_assoc, h s _ hs, k _ rest (by simpa using hs), append_append]

/-! ### Outside quotes -/

/-- The characters that mean something to the scanner outside quotes. -/
def isSpecial (c : Char) : Bool :=
  isBlank c || c == '\'' || c == '"' || c == '\\' || c == '$'

/-- A character outside quotes; a line end cannot be protected there. -/
inductive BareChar where
  | plain (c : Char) (ordinary : isSpecial c = false)
  | guarded (c : Char) (inLine : c ≠ '\n' ∧ c ≠ '\r')

def BareChar.write : BareChar → List Char
  | .plain c _ => [c]
  | .guarded c _ => ['\\', c]

def BareChar.value : BareChar → Char
  | .plain c _ | .guarded c _ => c

theorem BareChar.writes (b : BareChar) : Writes b.write [b.value] := by
  intro s rest hs
  cases b with
  | plain c h =>
    simp only [isSpecial, Bool.or_eq_false_iff, beq_eq_false_iff_ne] at h
    obtain ⟨⟨⟨⟨hb, h1⟩, h2⟩, h3⟩, h4⟩ := h
    have hstep : s.step c = s.append [c] := by
      simp [step, hs, readBare, h1, h2, h3, h4, hb, Scanner.push_eq_append]
    simp [write, value, hstep]
  | guarded c h =>
    have hfirst : s.step '\\' = s.enter .bareEscape := by simp [step, hs, readBare]
    have hsecond : (s.enter .bareEscape).step c = s.append [c] := by
      have he : (s.append [c]).enter .bare = s.append [c] := enter_of_mode hs
      simp [step, h.1, h.2, Scanner.push_eq_append, he]
    simp [write, value, hfirst, hsecond]

theorem writes_bareChars (bs : List BareChar) (h : bs ≠ []) :
    Writes (bs.flatMap BareChar.write) (bs.map BareChar.value) := by
  induction bs with
  | nil => exact absurd rfl h
  | cons b bs ih =>
    cases bs with
    | nil => simpa using b.writes
    | cons b' bs => exact b.writes.append (ih (by simp))

/-! ### In quotes -/

/-- Read in the quotes of mode `m`, `text` adds `value` to the word. A code point escape
is settled by the character after it, so something has to follow. -/
def WritesIn (m : Mode) (text value : List Char) : Prop :=
  ∀ (s : Scanner) (rest : List Char), s.mode = m → s.word.isSome → rest ≠ [] →
    scan s (text ++ rest) = scan (s.append value) rest

theorem WritesIn.flatMap {m : Mode} {write : α → List Char} {value : α → Char}
    (h : ∀ a, WritesIn m (write a) [value a]) (as : List α) :
    WritesIn m (as.flatMap write) (as.map value) := by
  intro s rest hs hw hr
  induction as generalizing s with
  | nil =>
    have he : s.append [] = s := by
      obtain ⟨w, hw⟩ := Option.isSome_iff_exists.1 hw
      obtain ⟨mode, word, ws⟩ := s
      simp only at hw
      simp [Scanner.append, hw]
    simp [he]
  | cons a as ih =>
    have hne : as.flatMap write ++ rest ≠ [] := by simp [hr]
    rw [List.flatMap_cons, List.append_assoc, h a s _ hs hw hne, ih (s.append [value a]) hs rfl]
    simp

/-- Quotes that are opened and closed outside quotes. -/
theorem WritesIn.quoted {m : Mode} {before text value : List Char} {mark : Char}
    (h : WritesIn m text value)
    (hopen : ∀ s : Scanner, s.mode = .bare → scan s before = (s.append []).enter m)
    (hclose : ∀ s : Scanner, s.mode = m → s.step mark = s.enter .bare) :
    Writes (before ++ text ++ [mark]) value := by
  intro s rest hs
  have hstart := h ((s.append []).enter m) (mark :: rest) rfl rfl (by simp)
  have hend : ((s.append []).enter m).append value = (s.append value).enter m := by simp
  rw [hend] at hstart
  simp only [List.append_assoc, List.singleton_append]
  rw [scan_append, hopen s hs, hstart, scan_cons, hclose _ rfl, enter_enter]
  rw [enter_of_mode (by simpa using hs)]

/-- A character between single quotes. -/
def SingleChar := { c : Char // c ≠ '\'' }

theorem SingleChar.writes (c : SingleChar) : WritesIn .single [c.val] [c.val] := by
  intro s rest hs _ _
  simp [step, hs, c.property, Scanner.push_eq_append]

/-- A character between double quotes. The backtick and the dollar sign may be protected. -/
inductive DoubleChar where
  | plain (c : Char) (ordinary : c ≠ '"' ∧ c ≠ '\\')
  | guarded (c : Char) (special : c = '"' ∨ c = '\\' ∨ c = '\x60' ∨ c = '$')

def DoubleChar.write : DoubleChar → List Char
  | .plain c _ => [c]
  | .guarded c _ => ['\\', c]

def DoubleChar.value : DoubleChar → Char
  | .plain c _ | .guarded c _ => c

theorem DoubleChar.writes (d : DoubleChar) : WritesIn .double d.write [d.value] := by
  intro s rest hs _ _
  cases d with
  | plain c h => simp [write, value, step, hs, h.1, h.2, Scanner.push_eq_append]
  | guarded c h =>
    have he : (s.append [c]).enter .double = s.append [c] := enter_of_mode hs
    have hfirst : s.step '\\' = s.enter .doubleEscape := by simp [step, hs]
    have hsecond : (s.enter .doubleEscape).step c = s.append [c] := by
      simp [step, h, Scanner.push_eq_append, he]
    simp [write, value, hfirst, hsecond]

/-- The escapes of one letter in `$'…'`, with what they stand for. -/
def ansiEscapes : List (Char × Char) :=
  [('\\', '\\'), ('\'', '\''), ('"', '"'), ('?', '?'), ('n', '\n'), ('t', '\t'), ('r', '\r'),
    ('0', '\x00')]

/-- A character between `$'` and `'`: as it is, by a one-letter escape, or by the
hexadecimal digits of its code point, as many as the form takes. -/
inductive AnsiChar where
  | plain (c : Char) (ordinary : c ≠ '\'' ∧ c ≠ '\\')
  | letter (l c : Char) (listed : (l, c) ∈ ansiEscapes)
  | codePoint (form : CodePointForm) (digits : List Char) (c : Char)
      (full : digits.length = form.maxDigits) (names : hexNumber? digits = some c.toNat)

def AnsiChar.write : AnsiChar → List Char
  | .plain c _ => [c]
  | .letter l _ _ => ['\\', l]
  | .codePoint form digits _ _ _ => '\\' :: form.letter :: digits

def AnsiChar.value : AnsiChar → Char
  | .plain c _ | .letter _ c _ | .codePoint _ _ c _ _ => c

theorem step_letter (s : Scanner) (hs : s.mode = .ansi) {l c : Char} (h : (l, c) ∈ ansiEscapes) :
    (s.enter .ansiEscape).step l = s.append [c] := by
  have he : (s.append [c]).enter .ansi = s.append [c] := enter_of_mode hs
  rw [← he]
  simp only [ansiEscapes, List.mem_cons, Prod.mk.injEq, List.not_mem_nil, or_false] at h
  rcases h with ⟨rfl, rfl⟩ | ⟨rfl, rfl⟩ | ⟨rfl, rfl⟩ | ⟨rfl, rfl⟩ | ⟨rfl, rfl⟩ | ⟨rfl, rfl⟩ |
    ⟨rfl, rfl⟩ | ⟨rfl, rfl⟩ <;> simp [step, readAnsiEscape, Scanner.push_eq_append]

theorem scan_digits (form : CodePointForm) (before digits : List Char) (s : Scanner)
    (hhex : ∀ d ∈ digits, isHexDigit d) (hlen : (before ++ digits).length ≤ form.maxDigits) :
    scan (s.enter (.codePoint form before)) digits =
      s.enter (.codePoint form (before ++ digits)) := by
  induction digits generalizing before with
  | nil => simp
  | cons d digits ih =>
    have hd : isHexDigit d := hhex d (by simp)
    have hroom : before.length < form.maxDigits := by
      simp only [List.length_append, List.length_cons] at hlen
      omega
    have hstep : (s.enter (.codePoint form before)).step d =
        s.enter (.codePoint form (before ++ [d])) := by simp [step, hd, hroom]
    rw [scan_cons, hstep,
      ih (before ++ [d]) (fun e he => hhex e (by simp [he])) (by simpa using hlen)]
    simp

/-- The character after a full code point escape settles it and is read on its own. -/
theorem step_full (s : Scanner) (hs : s.mode = .ansi) {form : CodePointForm} {digits : List Char}
    {c : Char} (full : digits.length = form.maxDigits) (names : hexNumber? digits = some c.toNat)
    (d : Char) : (s.enter (.codePoint form digits)).step d = (s.append [c]).step d := by
  have hchar : charOf? c.toNat = some c := by
    have hvalid : c.toNat.isValidChar := c.valid
    simp [charOf?, hvalid]
  have htext : codePointText form digits = [c] := by simp [codePointText, names, hchar]
  have he : (s.append [c]).enter .ansi = s.append [c] := enter_of_mode hs
  have hfull : ¬ digits.length < form.maxDigits := by omega
  have hend : (s.enter (.codePoint form digits)).endCodePoint form digits = s.append [c] := by
    rw [← he]
    simp [endCodePoint, htext, Scanner.push_eq_append]
  simp [step, hfull, hend, hs]

theorem AnsiChar.writes (a : AnsiChar) : WritesIn .ansi a.write [a.value] := by
  intro s rest hs _ hr
  have hguard : s.step '\\' = s.enter .ansiEscape := by simp [step, readAnsi, hs]
  cases a with
  | plain c h => simp [write, value, step, readAnsi, hs, h.1, h.2, Scanner.push_eq_append]
  | letter l c h => simp [write, value, hguard, step_letter s hs h]
  | codePoint form digits c full names =>
    obtain ⟨d, rest, rfl⟩ := List.exists_cons_of_ne_nil hr
    have hletter : (s.enter .ansiEscape).step form.letter = s.enter (.codePoint form []) := by
      cases form <;> simp [step, readAnsiEscape, CodePointForm.letter]
    have hdigits := scan_digits form [] digits s (fun e he => isHexDigit_of_mem names he)
      (by simp [full])
    simp only [write, value, List.cons_append, scan_cons, hguard, hletter]
    rw [scan_append, hdigits, List.nil_append, scan_cons, step_full s hs full names]

/-! ### Segments and words -/

inductive Segment where
  | bare (first : BareChar) (more : List BareChar)
  | single (text : List SingleChar)
  | double (text : List DoubleChar)
  | ansi (text : List AnsiChar)

def Segment.write : Segment → List Char
  | .bare first more => (first :: more).flatMap BareChar.write
  | .single text => ['\''] ++ text.flatMap (fun c => [c.val]) ++ ['\'']
  | .double text => ['"'] ++ text.flatMap DoubleChar.write ++ ['"']
  | .ansi text => ['$', '\''] ++ text.flatMap AnsiChar.write ++ ['\'']

def Segment.value : Segment → List Char
  | .bare first more => (first :: more).map BareChar.value
  | .single text => text.map Subtype.val
  | .double text => text.map DoubleChar.value
  | .ansi text => text.map AnsiChar.value

theorem Segment.writes (g : Segment) : Writes g.write g.value := by
  cases g with
  | bare first more => exact writes_bareChars _ (by simp)
  | single text =>
    refine (WritesIn.flatMap SingleChar.writes text).quoted ?_ ?_
    · intro s hs
      simp [step, readBare, hs, openWord_eq_append]
    · intro s hs
      simp [step, hs]
  | double text =>
    refine (WritesIn.flatMap DoubleChar.writes text).quoted ?_ ?_
    · intro s hs
      simp [step, readBare, hs, openWord_eq_append]
    · intro s hs
      simp [step, hs]
  | ansi text =>
    refine (WritesIn.flatMap AnsiChar.writes text).quoted ?_ ?_
    · intro s hs
      simp [step, readBare, hs, openWord_eq_append]
    · intro s hs
      simp [step, readAnsi, hs]

/-- A word is one or more segments side by side. -/
structure Word where
  first : Segment
  more : List Segment

def Word.write (w : Word) : List Char := (w.first :: w.more).flatMap Segment.write

def Word.value (w : Word) : List Char := (w.first :: w.more).flatMap Segment.value

theorem Word.writes (w : Word) : Writes w.write w.value := by
  obtain ⟨first, more⟩ := w
  induction more generalizing first with
  | nil => simpa [write, value] using first.writes
  | cons g more ih => exact first.writes.append (ih g)

/-! ### Lines -/

/-- What separates words: a blank, or a backslash before a line end. -/
inductive Gap where
  | blank (c : Char) (h : isBlank c)
  | lineFeed
  | returnLineFeed

def Gap.write : Gap → List Char
  | .blank c _ => [c]
  | .lineFeed => ['\\', '\n']
  | .returnLineFeed => ['\\', '\r', '\n']

theorem endWord_enter (m : Mode) (s : Scanner) : (s.enter m).endWord = s.endWord.enter m := by
  cases h : s.word <;> simp [endWord, enter, h]

theorem scan_gap (g : Gap) (s : Scanner) (hs : s.mode = .bare) : scan s g.write = s.endWord := by
  have he : s.endWord.enter .bare = s.endWord := enter_of_mode (by simpa using hs)
  cases g with
  | blank c h =>
    have hordinary : c ≠ '\'' ∧ c ≠ '"' ∧ c ≠ '\\' ∧ c ≠ '$' := by
      refine ⟨?_, ?_, ?_, ?_⟩ <;> (rintro rfl; revert h; decide)
    simp [Gap.write, step, hs, readBare, hordinary, h]
  | lineFeed => simp [Gap.write, step, hs, readBare, endWord_enter, he]
  | returnLineFeed => simp [Gap.write, step, hs, readBare, endWord_enter, he]

theorem scan_gaps (gs : List Gap) (h : gs ≠ []) (s : Scanner) (hs : s.mode = .bare) :
    scan s (gs.flatMap Gap.write) = s.endWord := by
  induction gs generalizing s with
  | nil => exact absurd rfl h
  | cons g gs ih =>
    rw [List.flatMap_cons, scan_append, scan_gap g s hs]
    cases gs with
    | nil => rfl
    | cons g' gs => rw [ih (by simp) s.endWord (by simpa using hs), endWord_endWord]

/-- Gaps at the end of a line change nothing. -/
theorem finish_scan_gaps (gs : List Gap) (s : Scanner) (hs : s.mode = .bare) :
    (scan s (gs.flatMap Gap.write)).finish = s.endWord.words.toList := by
  have hsettle (t : Scanner) (ht : t.mode = .bare) : t.finish = t.endWord.words.toList := by
    simp [finish, settle, ht]
  cases gs with
  | nil => exact hsettle s hs
  | cons g gs =>
    rw [scan_gaps _ (by simp) s hs, hsettle _ (by simpa using hs), endWord_endWord]

/-- A word that stands apart from what is before it. -/
structure Spaced (α : Type) where
  gap : Gap
  gaps : List Gap
  word : α

def Spaced.write (write : α → List Char) (w : Spaced α) : List Char :=
  (w.gap :: w.gaps).flatMap Gap.write ++ write w.word

/-- Words that are written apart from each other are read back, whatever way each is written. -/
theorem finish_scan_words {write value : α → List Char} (h : ∀ a, Writes (write a) (value a))
    (more : List (Spaced α)) (trail : List Gap) (word : String) (words : Array String) :
    (scan ⟨.bare, some word, words⟩
      (more.flatMap (Spaced.write write) ++ trail.flatMap Gap.write)).finish =
    words.toList ++ word :: more.map fun w => String.ofList (value w.word) := by
  induction more generalizing word words with
  | nil => simp [finish_scan_gaps, endWord]
  | cons w more ih =>
    have hgaps := scan_gaps (w.gap :: w.gaps) (by simp) ⟨.bare, some word, words⟩ rfl
    have hnext : (⟨.bare, none, words.push word⟩ : Scanner).append (value w.word) =
        ⟨.bare, some (String.ofList (value w.word)), words.push word⟩ := by simp [Scanner.append]
    rw [List.flatMap_cons, Spaced.write, List.append_assoc, List.append_assoc, scan_append, hgaps]
    rw [endWord, h w.word _ _ rfl, hnext, ih]
    simp

/-- A line of words, with gaps between them and possibly at its ends. -/
inductive Line where
  | blank (gaps : List Gap)
  | words (lead : List Gap) (first : Word) (more : List (Spaced Word)) (trail : List Gap)

def Line.write : Line → List Char
  | .blank gaps => gaps.flatMap Gap.write
  | .words lead first more trail =>
    lead.flatMap Gap.write ++ (first.write ++
      (more.flatMap (Spaced.write Word.write) ++ trail.flatMap Gap.write))

def Line.values : Line → List String
  | .blank _ => []
  | .words _ first more _ =>
    String.ofList first.value :: more.map fun w => String.ofList w.word.value

/-- However a line is written, the scanner reads its words. -/
theorem words_of_line (l : Line) : words (String.ofList l.write) = l.values := by
  rw [words, String.toList_ofList]
  cases l with
  | blank gaps => simp [Line.write, Line.values, finish_scan_gaps, start, endWord]
  | words lead first more trail =>
    have hlead : scan start (lead.flatMap Gap.write) = start := by
      cases lead with
      | nil => rfl
      | cons g gs => exact scan_gaps _ (by simp) start rfl
    have hfirst : start.append first.value = ⟨.bare, some (String.ofList first.value), #[]⟩ := by
      simp [start, Scanner.append]
    rw [Line.write, scan_append, hlead, first.writes start _ rfl, hfirst,
      finish_scan_words Word.writes]
    rfl

example : words "a\\ b'c'\"d\\$\"$'\\x41\\n' \\\n''" = ["a bcd$A\n", ""] := by decide

end CurlCode.Shell

import CurlCode.Proofs.Cancellation
import CurlCode.Proofs.Json.Numeral
import CurlCode.Text.Blank

/-!
Tokens at the front of a program: texts, with any blanks before them, and numerals. A
token is found if it is there, and not found if what is there clashes with it.
-/
namespace CurlCode

def Lexeme.isBlank : Lexeme → Bool
  | .plain c => Text.isBlank c
  | .literal _ => false

namespace Json

open Text

def skipBlanks (ls : List Lexeme) : List Lexeme := ls.dropWhile Lexeme.isBlank

/-- What follows this text. -/
def strip? : List Char → List Lexeme → Option (List Lexeme)
  | [], ls => some ls
  | c :: t, .plain d :: ls => if c = d then strip? t ls else none
  | _ :: _, _ => none

/-- What follows this text and the blanks before it. -/
def token? (t : List Char) (ls : List Lexeme) : Option (List Lexeme) := strip? t (skipBlanks ls)

/-- The characters of a numeral at the front, and the rest. -/
def numeralRun : List Lexeme → List Char × List Lexeme
  | .plain c :: ls =>
    if Numeral.isNumeralChar c then (c :: (numeralRun ls).1, (numeralRun ls).2)
    else ([], .plain c :: ls)
  | ls => ([], ls)

/-- A token starts with a character that is no blank and goes on with no numeral. -/
def Solid (t : List Char) : Prop :=
  ∃ c, t.head? = some c ∧ isBlank c = false ∧ Numeral.isNumeralChar c = false

instance (t : List Char) : Decidable (Solid t) :=
  match t with
  | [] => .isFalse (by simp [Solid])
  | c :: _ =>
    decidable_of_iff (isBlank c = false ∧ Numeral.isNumeralChar c = false) (by simp [Solid])

theorem skipBlanks_blank {s : List Char} (h : ∀ c ∈ s, isBlank c) (k : List Lexeme) :
    skipBlanks (s.map .plain ++ k) = skipBlanks k := by
  rw [skipBlanks, List.dropWhile_append_of_pos]
  · rfl
  · simpa [Lexeme.isBlank] using h

theorem isBlank_newline : ∀ c ∈ ['\n'], isBlank c := by
  intro c hc
  rw [List.mem_singleton.1 hc]
  decide

theorem skipBlanks_literal (t : Option String) (k : List Lexeme) :
    skipBlanks (.literal t :: k) = .literal t :: k := rfl

theorem skipBlanks_solid {t : List Char} (h : Solid t) (k : List Lexeme) :
    skipBlanks (t.map .plain ++ k) = t.map .plain ++ k := by
  obtain ⟨c, hc, hblank, -⟩ := h
  cases t with
  | nil => simp at hc
  | cons d t =>
    obtain rfl : d = c := by simpa using hc
    simp [skipBlanks, Lexeme.isBlank, hblank]

theorem strip?_append (t : List Char) (k : List Lexeme) :
    strip? t (t.map .plain ++ k) = some k := by
  induction t with
  | nil => rfl
  | cons c t ih => simp [strip?, ih]

theorem strip?_clash {s t : List Char} (h : Clash s t) (k : List Lexeme) :
    strip? s (t.map .plain ++ k) = none := by
  induction s generalizing t with
  | nil => exact absurd List.nil_prefix h.1
  | cons c s ih =>
    cases t with
    | nil => exact absurd List.nil_prefix h.2
    | cons d t =>
      by_cases hcd : c = d
      · subst hcd
        have htail : Clash s t := by simpa [Clash, List.cons_prefix_cons] using h
        simp [strip?, ih htail]
      · simp [strip?, hcd]

/-- A token is not at the front if something else is. -/
theorem strip?_head {t : List Char} (ht : Solid t) {ls : List Lexeme}
    (h : ∀ c, ls.head? = some (.plain c) → t.head? ≠ some c) : strip? t ls = none := by
  obtain ⟨d, hd, -⟩ := ht
  cases t with
  | nil => simp at hd
  | cons e t =>
    cases ls with
    | nil => rfl
    | cons x ls =>
      cases x with
      | literal s => rfl
      | plain c =>
        have hne : e ≠ c := by simpa using h c rfl
        simp [strip?, hne]

/-- What goes on with no numeral. -/
def Ended (k : List Lexeme) : Prop :=
  ∀ c, k.head? = some (.plain c) → Numeral.isNumeralChar c = false

theorem ended_solid {t : List Char} (h : Solid t) (k : List Lexeme) :
    Ended (t.map .plain ++ k) := by
  obtain ⟨c, hc, -, hnumeral⟩ := h
  cases t with
  | nil => simp at hc
  | cons d t =>
    obtain rfl : d = c := by simpa using hc
    simpa [Ended] using hnumeral

theorem ended_text {q : Quoting} {t : String} (ht : q.mark ∉ t.toList)
    (hhead : t.toList.head?.any fun c => !Numeral.isNumeralChar c) (k : List Lexeme) :
    Ended (Fragment.lexemes q (.text t) ++ k) := by
  rw [Fragment.lexemes_text ht, plain]
  cases hlist : t.toList with
  | nil => simp [hlist] at hhead
  | cons c s => simpa [hlist, Ended] using hhead

theorem numeralRun_append {s : List Char} (hs : ∀ c ∈ s, Numeral.isNumeralChar c)
    {k : List Lexeme} (hk : Ended k) : numeralRun (s.map .plain ++ k) = (s, k) := by
  induction s with
  | nil =>
    cases k with
    | nil => rfl
    | cons x k =>
      cases x with
      | literal t => rfl
      | plain c => simp [numeralRun, hk c rfl]
  | cons c s ih =>
    have htail := ih fun d hd => hs d (by simp [hd])
    simp [numeralRun, hs c (by simp), htail]

theorem skipBlanks_skipBlanks (ls : List Lexeme) : skipBlanks (skipBlanks ls) = skipBlanks ls := by
  induction ls with
  | nil => rfl
  | cons x ls ih =>
    cases h : Lexeme.isBlank x with
    | true => simpa [skipBlanks, h] using ih
    | false => simp [skipBlanks, h]

theorem token?_blank {s : List Char} (h : ∀ c ∈ s, isBlank c) (t : List Char)
    (k : List Lexeme) : token? t (s.map .plain ++ k) = token? t k := by
  rw [token?, token?, skipBlanks_blank h]

theorem token?_append {t : List Char} (h : Solid t) (k : List Lexeme) :
    token? t (t.map .plain ++ k) = some k := by
  rw [token?, skipBlanks_solid h, strip?_append]

theorem token?_clash {s t : List Char} (ht : Solid t) (h : Clash s t) (k : List Lexeme) :
    token? s (t.map .plain ++ k) = none := by
  rw [token?, skipBlanks_solid ht, strip?_clash h]

end Json

end CurlCode

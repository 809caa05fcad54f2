import CurlCode.Literal
import CurlCode.Text.Pieces
import Mathlib.Tactic.SplitIfs

/-!
What a string literal stands for. Each way of quoting has its escapes; reading them
undoes `escape`, character by character (`unescape_escape`).
-/
namespace CurlCode.Quoting

open Text

@[simp] theorem mark_double : double.mark = '"' := rfl
@[simp] theorem mark_braced : braced.mark = '"' := rfl
@[simp] theorem mark_single : single.mark = '\'' := rfl
@[simp] theorem mark_json : json.mark = '"' := rfl

/-- The escapes of one character after the backslash. -/
def shortEscapes : Quoting → List (Char × Char)
  | .single => [('\\', '\\'), ('\'', '\'')]
  | .double | .braced => [('\\', '\\'), ('"', '"'), ('n', '\n'), ('r', '\r'), ('t', '\t')]
  | .json => [('\\', '\\'), ('"', '"'), ('n', '\n'), ('r', '\r'), ('t', '\t'), ('b', '\x08'),
      ('f', '\x0C')]

/-- The digits after `\u`, and what follows them: exactly four, or any number in braces. -/
def codePointDigits? : Quoting → List Char → Option (List Char × List Char)
  | .single, _ => none
  | .double, s | .json, s => if 4 ≤ s.length then some (s.take 4, s.drop 4) else none
  | .braced, '\x7b' :: s => cut? '\x7d' s
  | .braced, _ => none

/-- The character that an escape stands for, read after its backslash. -/
def readEscape? (q : Quoting) : List Char → Option (Char × List Char)
  | [] => none
  | e :: s =>
    match q.shortEscapes.lookup e with
    | some c => some (c, s)
    | none =>
      if e = 'u' then do
        let (digits, rest) ← q.codePointDigits? s
        return (← (hexNumber? digits).bind charOf?, rest)
      else none

theorem length_codePointDigits? {q : Quoting} {s digits rest : List Char}
    (h : q.codePointDigits? s = some (digits, rest)) : rest.length ≤ s.length := by
  have hfour (h : (if 4 ≤ s.length then some (s.take 4, s.drop 4) else none) =
      some (digits, rest)) : rest.length ≤ s.length := by
    simp only [Option.ite_none_right_eq_some, Option.some.injEq, Prod.mk.injEq] at h
    obtain ⟨-, -, rfl⟩ := h
    simp
  cases q with
  | single => simp [codePointDigits?] at h
  | double => exact hfour h
  | json => exact hfour h
  | braced =>
    cases s with
    | nil => simp [codePointDigits?] at h
    | cons c s =>
      by_cases hc : c = '\x7b'
      · subst hc
        obtain ⟨rfl, -⟩ := cut?_eq_some (show cut? '\x7d' s = some (digits, rest) from h)
        simp only [List.length_cons, List.length_append]
        omega
      · simp [codePointDigits?, hc] at h

theorem length_readEscape? {q : Quoting} {s rest : List Char} {c : Char}
    (h : q.readEscape? s = some (c, rest)) : rest.length ≤ s.length := by
  cases s with
  | nil => simp [readEscape?] at h
  | cons e s =>
    simp only [readEscape?] at h
    split at h
    · simp only [Option.some.injEq, Prod.mk.injEq] at h
      simp [← h.2]
    · split at h
      · simp only [bind, Option.bind_eq_some_iff, pure, Option.some.injEq] at h
        obtain ⟨⟨digits, r⟩, hd, d, -, hr⟩ := h
        obtain ⟨-, rfl⟩ := Prod.mk.inj hr
        have := length_codePointDigits? hd
        simp only [List.length_cons]
        omega
      · simp at h

/-- The text of a literal from what stands between its marks. In single quotes a
backslash that protects nothing stands for itself; elsewhere it is a fault. -/
def unescape (q : Quoting) : List Char → Option (List Char)
  | [] => some []
  | c :: s =>
    if c = '\\' then
      match _h : q.readEscape? s with
      | some (d, rest) => (unescape q rest).map (d :: ·)
      | none => if q = .single then (unescape q s).map ('\\' :: ·) else none
    else (unescape q s).map (c :: ·)
termination_by s => s.length
decreasing_by
  all_goals simp only [List.length_cons]
  · have := length_readEscape? _h
    omega
  · omega
  · omega

theorem unescape_plain (q : Quoting) {c : Char} (h : c ≠ '\\') (s : List Char) :
    q.unescape (c :: s) = (q.unescape s).map (c :: ·) := by
  rw [unescape, if_neg h]

theorem unescape_guarded {q : Quoting} {s rest : List Char} {c : Char}
    (h : q.readEscape? s = some (c, rest)) :
    q.unescape ('\\' :: s) = (q.unescape rest).map (c :: ·) := by
  rw [unescape, if_pos rfl]
  split
  · next d r hr =>
    rw [h] at hr
    obtain ⟨rfl, rfl⟩ := Prod.mk.inj (Option.some.inj hr)
    rfl
  · next hr => simp [h] at hr

theorem readEscape?_short {q : Quoting} {e c : Char} (h : q.shortEscapes.lookup e = some c)
    (s : List Char) : q.readEscape? (e :: s) = some (c, s) := by
  simp [readEscape?, h]

/-! ### The control characters -/

theorem hexNumber?_hexPadded_four :
    ∀ n < 0xA0, hexNumber? (hexPadded 4 n) = some n ∧ (hexPadded 4 n).length = 4 := by
  decide +kernel

theorem hexNumber?_hex : ∀ n < 0xA0, hexNumber? (hex n) = some n ∧ '\x7d' ∉ hex n := by
  decide +kernel

theorem charOf?_toNat (c : Char) : charOf? c.toNat = some c := by
  have hvalid : c.toNat.isValidChar := c.valid
  simp [charOf?, hvalid]

theorem toNat_lt_of_isControl {c : Char} (h : isControl c) : c.toNat < 0xA0 := by
  simp only [isControl, Bool.or_eq_true, Bool.and_eq_true, decide_eq_true_eq] at h
  omega

theorem readEscape?_fourDigits {q : Quoting} (hq : q = .double ∨ q = .json) {c : Char}
    (hc : c.toNat < 0xA0) (s : List Char) :
    q.readEscape? ('u' :: (hexPadded 4 c.toNat ++ s)) = some (c, s) := by
  obtain ⟨hnumber, hlength⟩ := hexNumber?_hexPadded_four c.toNat hc
  have hdigits : q.codePointDigits? (hexPadded 4 c.toNat ++ s) =
      some (hexPadded 4 c.toNat, s) := by
    have htake : (hexPadded 4 c.toNat ++ s).take 4 = hexPadded 4 c.toNat := List.take_left' hlength
    have hdrop : (hexPadded 4 c.toNat ++ s).drop 4 = s := List.drop_left' hlength
    rcases hq with rfl | rfl <;> simp [codePointDigits?, hlength, htake, hdrop]
  have hlookup : q.shortEscapes.lookup 'u' = none := by rcases hq with rfl | rfl <;> decide
  simp [readEscape?, hlookup, hdigits, hnumber, charOf?_toNat]

theorem readEscape?_braces {c : Char} (hc : c.toNat < 0xA0) (s : List Char) :
    braced.readEscape? ('u' :: '\x7b' :: (hex c.toNat ++ '\x7d' :: s)) = some (c, s) := by
  obtain ⟨hnumber, hbrace⟩ := hexNumber?_hex c.toNat hc
  have hdigits : braced.codePointDigits? ('\x7b' :: (hex c.toNat ++ '\x7d' :: s)) =
      some (hex c.toNat, s) := cut?_append hbrace s
  have hlookup : braced.shortEscapes.lookup 'u' = none := by decide
  simp [readEscape?, hlookup, hdigits, hnumber, charOf?_toNat]

/-! ### Escaping and back -/

theorem unescape_short {q : Quoting} {e c : Char} (h : q.shortEscapes.lookup e = some c)
    (s : List Char) : q.unescape ('\\' :: e :: s) = (q.unescape s).map (c :: ·) :=
  unescape_guarded (readEscape?_short h s)

theorem unescape_escapeDouble {q : Quoting} (control : Nat → List Char)
    (hshort : ∀ p ∈ [('\\', '\\'), ('"', '"'), ('n', '\n'), ('r', '\r'), ('t', '\t')],
      q.shortEscapes.lookup p.1 = some p.2)
    (hcontrol : ∀ (c : Char) (s : List Char), c.toNat < 0xA0 →
      q.unescape (control c.toNat ++ s) = (q.unescape s).map (c :: ·))
    (c : Char) (s : List Char) :
    q.unescape (escapeDouble control c ++ s) = (q.unescape s).map (c :: ·) := by
  rw [escapeDouble]
  split_ifs with h₁ h₂ h₃ h₄ h₅ h₆
  · subst h₁; exact unescape_short (hshort ('\\', '\\') (by simp)) s
  · subst h₂; exact unescape_short (hshort ('"', '"') (by simp)) s
  · subst h₃; exact unescape_short (hshort ('n', '\n') (by simp)) s
  · subst h₄; exact unescape_short (hshort ('r', '\r') (by simp)) s
  · subst h₅; exact unescape_short (hshort ('t', '\t') (by simp)) s
  · exact hcontrol c s (toNat_lt_of_isControl h₆)
  · exact unescape_plain q h₁ s

theorem unescape_escape_append (q : Quoting) (c : Char) (s : List Char) :
    q.unescape (q.escape c ++ s) = (q.unescape s).map (c :: ·) := by
  cases q with
  | double =>
    have hcontrol (d : Char) (t : List Char) (hd : d.toNat < 0xA0) :=
      unescape_guarded (readEscape?_fourDigits (.inl rfl : double = .double ∨ _) hd t)
    exact unescape_escapeDouble (fun n => '\\' :: 'u' :: hexPadded 4 n) (by decide) hcontrol c s
  | braced =>
    have hcontrol (d : Char) (t : List Char) (hd : d.toNat < 0xA0) :
        braced.unescape ('\\' :: 'u' :: '\x7b' :: hex d.toNat ++ ['\x7d'] ++ t) =
          (braced.unescape t).map (d :: ·) := by
      simpa using unescape_guarded (readEscape?_braces hd t)
    exact unescape_escapeDouble (fun n => '\\' :: 'u' :: '\x7b' :: hex n ++ ['\x7d']) (by decide)
      hcontrol c s
  | single =>
    by_cases h : c = '\\' ∨ c = '\''
    · have hlookup : single.shortEscapes.lookup c = some c := by
        rcases h with rfl | rfl <;> decide
      simpa [escape, escapeSingle, h] using unescape_short hlookup s
    · have hc : c ≠ '\\' := fun he => h (.inl he)
      simpa [escape, escapeSingle, h] using unescape_plain single hc s
  | json =>
    simp only [escape, escapeJson]
    split_ifs with h₁ h₂ h₃ h₄ h₅ h₆ h₇ h₈
    · subst h₁; exact unescape_short (by decide) s
    · subst h₂; exact unescape_short (by decide) s
    · subst h₃; exact unescape_short (by decide) s
    · subst h₄; exact unescape_short (by decide) s
    · subst h₅; exact unescape_short (by decide) s
    · subst h₆; exact unescape_short (by decide) s
    · subst h₇; exact unescape_short (by decide) s
    · exact unescape_guarded (readEscape?_fourDigits (.inr rfl) (by omega) s)
    · exact unescape_plain json h₁ s

/-- What stands between the marks of a literal gives its text back. -/
theorem unescape_flatMap_escape (q : Quoting) (s : List Char) :
    q.unescape (s.flatMap q.escape) = some s := by
  induction s with
  | nil => simp [unescape]
  | cons c s ih => simp [unescape_escape_append, ih]

end CurlCode.Quoting

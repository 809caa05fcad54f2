import CurlCode.Json.Value

/-!
The tokens of JSON text. Blanks are space, tab, line feed and carriage return. A string
holds no raw control character below U+0020, and its surrogate escapes come in pairs.
-/
namespace CurlCode.Json

open Text

inductive Token where
  | leftBrace | rightBrace | leftBracket | rightBracket | colon | comma
  | null
  | bool (b : Bool)
  | number (n : Numeral)
  | string (s : String)
  deriving DecidableEq, Repr

namespace Token

def isBlank (c : Char) : Bool := c == ' ' || c == '\t' || c == '\n' || c == '\r'

/-- The character that a one-letter escape stands for. -/
def escaped? : Char → Option Char
  | '"' => some '"'
  | '\\' => some '\\'
  | '/' => some '/'
  | 'b' => some '\x08'
  | 'f' => some '\x0C'
  | 'n' => some '\n'
  | 'r' => some '\r'
  | 't' => some '\t'
  | _ => none

def isHighSurrogate (n : Nat) : Bool := 0xD800 ≤ n && n ≤ 0xDBFF
def isLowSurrogate (n : Nat) : Bool := 0xDC00 ≤ n && n ≤ 0xDFFF

/-- The code point of a surrogate pair. -/
def ofSurrogates (high low : Nat) : Nat := 0x10000 + 0x400 * (high - 0xD800) + (low - 0xDC00)

/-- The character of a `\u` escape outside the surrogates. -/
def ofUnit? (digits : List Char) : Option Char := (hexNumber? digits).bind charOf?

/-- The character of a surrogate pair of `\u` escapes. -/
def ofUnits? (high low : List Char) : Option Char := do
  let n ← hexNumber? high
  let m ← hexNumber? low
  if isHighSurrogate n ∧ isLowSurrogate m then charOf? (ofSurrogates n m) else none

/-- Put a character in front of the text that was read. -/
def prepend (c : Char) (read : Option (List Char × List Char)) :
    Option (List Char × List Char) :=
  read.map fun (t, rest) => (c :: t, rest)

/-- The text of a string after its opening quote, and what follows the closing one. -/
def readString? : List Char → Option (List Char × List Char)
  | [] => none
  | c :: r =>
    if c = '"' then some ([], r)
    else if c = '\\' then
      match r with
      | 'u' :: a :: b :: d :: e :: r =>
        match ofUnit? [a, b, d, e], r with
        | some x, r => prepend x (readString? r)
        | none, '\\' :: 'u' :: f :: g :: h :: i :: r =>
          match ofUnits? [a, b, d, e] [f, g, h, i] with
          | some x => prepend x (readString? r)
          | none => none
        | none, _ => none
      | e :: r =>
        match escaped? e with
        | some x => prepend x (readString? r)
        | none => none
      | [] => none
    else if c.toNat < 0x20 then none
    else prepend c (readString? r)

theorem of_prepend {c : Char} {x : Option (List Char × List Char)} {t r : List Char}
    (h : prepend c x = some (t, r)) : ∃ t', x = some (t', r) := by
  obtain ⟨⟨t', r'⟩, hx, heq⟩ := Option.map_eq_some_iff.1 h
  simp only [Prod.mk.injEq] at heq
  exact ⟨t', heq.2 ▸ hx⟩

theorem length_lt_of_readString? {s t r : List Char} (h : readString? s = some (t, r)) :
    r.length < s.length := by
  fun_induction readString? s generalizing t with
  | case1 | case5 | case6 | case8 | case9 | case10 => simp at h
  | case2 => simp_all
  | case3 a b d e s x hx hc ih | case4 a b d e f g k i s hx x hy hc ih | case7 e s hu x hx hc ih
  | case11 c s h1 h2 h3 ih =>
    obtain ⟨t', h⟩ := of_prepend h
    have := ih h
    simp only [List.length_cons]
    omega

/-- The token at the front of a text that starts with no blank, and the rest. -/
def read? : List Char → Option (Token × List Char)
  | '\x7b' :: r => some (leftBrace, r)
  | '\x7d' :: r => some (rightBrace, r)
  | '[' :: r => some (leftBracket, r)
  | ']' :: r => some (rightBracket, r)
  | ':' :: r => some (colon, r)
  | ',' :: r => some (comma, r)
  | 'n' :: 'u' :: 'l' :: 'l' :: r => some (null, r)
  | 't' :: 'r' :: 'u' :: 'e' :: r => some (bool true, r)
  | 'f' :: 'a' :: 'l' :: 's' :: 'e' :: r => some (bool false, r)
  | '"' :: r => (readString? r).map fun (t, rest) => (string (String.ofList t), rest)
  | r => (Numeral.read? r).map fun (n, rest) => (number n, rest)

theorem length_lt_of_read? {s r : List Char} {t : Token} (h : read? s = some (t, r)) :
    r.length < s.length := by
  fun_cases read? s with
  | case10 s =>
    simp only [read?, Option.map_eq_some_iff, Prod.mk.injEq] at h
    obtain ⟨⟨u, r'⟩, hs, -, rfl⟩ := h
    exact Nat.lt_succ_of_lt (length_lt_of_readString? hs)
  | case11 s =>
    simp only [read?, Option.map_eq_some_iff, Prod.mk.injEq] at h
    obtain ⟨⟨n, r'⟩, hs, -, rfl⟩ := h
    exact Numeral.length_lt_of_read? hs
  | _ =>
    simp only [read?, Option.some.injEq, Prod.mk.injEq] at h
    obtain ⟨-, rfl⟩ := h
    simp only [List.length_cons]
    omega

/-- The tokens of a text; `none` if some stretch of it is no token. -/
def ofText? (s : List Char) : Option (List Token) :=
  match _hs : s.dropWhile isBlank with
  | [] => some []
  | c :: r =>
    match _ht : read? (c :: r) with
    | some (t, rest) => (ofText? rest).map (t :: ·)
    | none => none
termination_by s.length
decreasing_by
  have h1 := length_lt_of_read? _ht
  have h2 := Numeral.length_dropWhile_le isBlank s
  rw [_hs] at h2
  omega

end Token

end CurlCode.Json

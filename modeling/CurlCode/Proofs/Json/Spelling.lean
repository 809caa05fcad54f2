import CurlCode.Json.Printer
import CurlCode.Json.Token
import CurlCode.Proofs.Json.Items

/-!
JSON texts by their tokens. The value decides the tokens; the blanks between them and the
escapes in strings are up to the writer. Both layouts spell the value that they are written
for (`spells_pretty`, `spells_compact`).
-/
namespace CurlCode.Json

open Text

mutual

/-- The tokens of a value, in order. -/
def tokens : Json → List Token
  | .null => [.null]
  | .bool b => [.bool b]
  | .number n => [.number n]
  | .string s => [.string s]
  | .array vs => .leftBracket :: (itemTokens vs ++ [.rightBracket])
  | .object ms => .leftBrace :: (memberTokens ms ++ [.rightBrace])

def itemTokens : List Json → List Token
  | [] => []
  | v :: vs => tokens v ++ ((if vs.isEmpty then [] else [.comma]) ++ itemTokens vs)

def memberTokens : List Member → List Token
  | [] => []
  | (key, v) :: ms =>
    .string key :: .colon ::
      (tokens v ++ ((if ms.isEmpty then [] else [.comma]) ++ memberTokens ms))

end

/-- A text whose tokens are those of the value. -/
def Spells (s : String) (v : Json) : Prop := Token.ofText? s.toList = some v.tokens

/-! ### Tokens at the front of a text -/

namespace Token

theorem ofText?_eq (s : List Char) : ofText? s = match s.dropWhile isBlank with
    | [] => some []
    | c :: r => (read? (c :: r)).bind fun x => (ofText? x.2).map (x.1 :: ·) := by
  rw [ofText?]
  split
  · next h => rw [h]
  · next c r h =>
    rw [h]
    split
    · next hr => simp only [hr, Option.bind_some]
    · next hr => simp only [hr, Option.bind_none]

theorem ofText?_cons {c : Char} {s k : List Char} {t : Token} (hc : isBlank c = false)
    (h : read? (c :: s) = some (t, k)) : ofText? (c :: s) = (ofText? k).map (t :: ·) := by
  have hdrop : (c :: s).dropWhile isBlank = c :: s := by simp [hc]
  rw [ofText?_eq, hdrop]
  simp only [h, Option.bind_some]

theorem ofText?_nil : ofText? [] = some [] := by rw [ofText?_eq]; rfl

/-- A text that is read as these tokens, whatever follows. -/
def Lexes (s : List Char) (ts : List Token) : Prop :=
  ∀ k, ofText? (s ++ k) = (ofText? k).map (ts ++ ·)

/-- A text that may end with a numeral, so that no character of one may follow. -/
def LexesBefore (s : List Char) (ts : List Token) : Prop :=
  ∀ k, Numeral.Ends k → ofText? (s ++ k) = (ofText? k).map (ts ++ ·)

section Lexes

variable {s s' : List Char} {ts ts' : List Token}

theorem Lexes.before (h : Lexes s ts) : LexesBefore s ts := fun k _ => h k

theorem LexesBefore.ofText?_eq (h : LexesBefore s ts) : ofText? s = some ts := by
  have hend := h [] Numeral.ends_nil
  rwa [List.append_nil, ofText?_nil, Option.map_some, List.append_nil] at hend

theorem Lexes.append (h : Lexes s ts) (h' : Lexes s' ts') : Lexes (s ++ s') (ts ++ ts') := by
  intro k
  rw [List.append_assoc, h, h', Option.map_map]
  simp [Function.comp_def]

theorem Lexes.append_before (h : Lexes s ts) (h' : LexesBefore s' ts') :
    LexesBefore (s ++ s') (ts ++ ts') := by
  intro k hk
  rw [List.append_assoc, h, h' k hk, Option.map_map]
  simp [Function.comp_def]

theorem LexesBefore.append (h : LexesBefore s ts) (h' : Lexes s' ts')
    (hends : ∀ k, Numeral.Ends (s' ++ k)) : Lexes (s ++ s') (ts ++ ts') := by
  intro k
  rw [List.append_assoc, h _ (hends k), h', Option.map_map]
  simp [Function.comp_def]

theorem lexes_blanks (h : s.all isBlank) : Lexes s [] := by
  intro k
  rw [ofText?_eq, List.dropWhile_append_of_pos (List.all_eq_true.1 h), ← ofText?_eq]
  simp

end Lexes

/-! Tokens with one spelling. -/

theorem lexes_leftBrace : Lexes "\x7b".toList [leftBrace] := fun _ => ofText?_cons (by decide) rfl
theorem lexes_rightBrace : Lexes "\x7d".toList [rightBrace] := fun _ => ofText?_cons (by decide) rfl
theorem lexes_leftBracket : Lexes "[".toList [leftBracket] := fun _ => ofText?_cons (by decide) rfl
theorem lexes_rightBracket : Lexes "]".toList [rightBracket] := fun _ => ofText?_cons (by decide) rfl
theorem lexes_colon : Lexes ":".toList [colon] := fun _ => ofText?_cons (by decide) rfl
theorem lexes_comma : Lexes ",".toList [comma] := fun _ => ofText?_cons (by decide) rfl
theorem lexes_null : Lexes "null".toList [null] := fun _ => ofText?_cons (by decide) rfl
theorem lexes_true : Lexes "true".toList [bool true] := fun _ => ofText?_cons (by decide) rfl
theorem lexes_false : Lexes "false".toList [bool false] := fun _ => ofText?_cons (by decide) rfl

theorem readString?_plain {c : Char} (h₁ : c ≠ '"') (h₂ : c ≠ '\\') (h₃ : ¬ c.toNat < 0x20)
    (k : List Char) : readString? (c :: k) = prepend c (readString? k) := by
  rw [readString?.eq_def]
  simp only [h₁, h₂, h₃, if_false]

theorem readString?_short {e c : Char} (he : e ≠ 'u') (h : escaped? e = some c) (k : List Char) :
    readString? ('\\' :: e :: k) = prepend c (readString? k) := by
  rw [readString?, if_neg (by decide), if_pos rfl]
  split
  · simp_all
  · simp_all
  · simp_all

theorem readString?_unit {digits : List Char} (hlength : digits.length = 4) {c : Char}
    (h : ofUnit? digits = some c) (k : List Char) :
    readString? ('\\' :: 'u' :: (digits ++ k)) = prepend c (readString? k) := by
  match digits, hlength with
  | [a, b, d, e], _ =>
    simp [readString?, h]

theorem readString?_escape (c : Char) (k : List Char) :
    readString? (Quoting.json.escape c ++ k) = prepend c (readString? k) := by
  simp only [Quoting.escape, Quoting.escapeJson]
  split_ifs with h₁ h₂ h₃ h₄ h₅ h₆ h₇ h₈
  · subst h₁; exact readString?_short (by decide) rfl k
  · subst h₂; exact readString?_short (by decide) rfl k
  · subst h₃; exact readString?_short (by decide) rfl k
  · subst h₄; exact readString?_short (by decide) rfl k
  · subst h₅; exact readString?_short (by decide) rfl k
  · subst h₆; exact readString?_short (by decide) rfl k
  · subst h₇; exact readString?_short (by decide) rfl k
  · obtain ⟨hnumber, hlength⟩ := Quoting.hexNumber?_hexPadded_four c.toNat (by omega)
    refine readString?_unit hlength ?_ k
    rw [ofUnit?, hnumber]
    exact Quoting.charOf?_toNat c
  · exact readString?_plain h₂ h₁ h₈ k

theorem readString?_text (s k : List Char) :
    readString? (s.flatMap Quoting.json.escape ++ '"' :: k) = some (s, k) := by
  induction s with
  | nil => rw [List.flatMap_nil, List.nil_append, readString?.eq_def]; rfl
  | cons c s ih =>
    rw [List.flatMap_cons, List.append_assoc, readString?_escape, ih]
    rfl

theorem lexes_string (s : String) :
    Lexes ('"' :: (s.toList.flatMap Quoting.json.escape ++ ['"'])) [string s] := by
  intro k
  rw [List.cons_append, List.append_assoc]
  refine ofText?_cons (by decide) ?_
  rw [read?, List.singleton_append, readString?_text]
  simp

/-- A numeral begins with none of the characters that begin another token. -/
theorem not_mem_of_numeralHead {c : Char} (hc : c = '-' ∨ c.isDigit) {others : List Char}
    (h : others.all fun d => d != '-' && !d.isDigit) : c ∉ others := by
  intro hmem
  have hother := List.all_eq_true.1 h c hmem
  rcases hc with rfl | hc
  · simp at hother
  · simp [hc] at hother

theorem read?_number {c : Char} (hc : c = '-' ∨ c.isDigit) (s : List Char) :
    read? (c :: s) = (Numeral.read? (c :: s)).map fun (n, rest) => (number n, rest) := by
  have hne : c ∉ ['\x7b', '\x7d', '[', ']', ':', ',', 'n', 't', 'f', '"'] :=
    not_mem_of_numeralHead hc (by decide)
  simp only [List.mem_cons, not_or] at hne
  rw [read?] <;> simp_all

theorem head_numeral (n : Numeral) : ∃ c s, n.text = c :: s ∧ (c = '-' ∨ c.isDigit) := by
  obtain ⟨d, ds, hwhole⟩ := List.exists_cons_of_ne_nil (Numeral.digits_ne_nil n.isDigits_whole)
  have hd : d.isDigit := Numeral.all_digits n.isDigits_whole d (by simp [hwhole])
  rw [Numeral.text_eq, hwhole]
  cases n.negative with
  | true => exact ⟨'-', _, rfl, .inl rfl⟩
  | false => exact ⟨d, _, rfl, .inr hd⟩

theorem not_isBlank_of_digit {c : Char} (hc : c = '-' ∨ c.isDigit) : isBlank c = false := by
  rw [Bool.eq_false_iff]
  intro h
  have hmem : c ∈ [' ', '\t', '\n', '\r'] := by simpa [isBlank, or_assoc] using h
  exact not_mem_of_numeralHead hc (by decide) hmem

theorem lexes_number (n : Numeral) : LexesBefore n.text [number n] := by
  intro k hk
  obtain ⟨c, s, htext, hc⟩ := head_numeral n
  have hread := Numeral.read?_text n hk
  rw [htext, List.cons_append] at hread ⊢
  refine ofText?_cons (not_isBlank_of_digit hc) ?_
  rw [read?_number hc, hread]
  rfl

end Token

/-! ### The two layouts -/

open Token

/-- The characters of a JSON source. -/
def chars (s : Source) : List Char := (s.render .json).toList

@[simp] theorem chars_nil : chars [] = [] := by simp [chars]
@[simp] theorem chars_text (t : String) (s : Source) :
    chars (.text t :: s) = t.toList ++ chars s := by simp [chars, Fragment.render]
@[simp] theorem chars_literal (t : String) (s : Source) :
    chars (.literal t :: s) =
      ('"' :: (t.toList.flatMap Quoting.json.escape ++ ['"'])) ++ chars s := by
  simp [chars, Fragment.render, Quoting.quote, Quoting.literal]
@[simp] theorem chars_append (s t : Source) : chars (s ++ t) = chars s ++ chars t := by
  simp [chars]

theorem lexes_nil : Lexes (chars []) [] := by
  rw [chars_nil]
  exact lexes_blanks (by simp)

theorem lexes_newline : Lexes "\n".toList [] := lexes_blanks (by decide)

theorem lexes_margin (depth : Nat) : Lexes (standard.margin depth) [] :=
  lexes_blanks (List.all_eq_true.2 (all_margin (by decide) depth))

theorem lexes_keySeparator : Lexes standard.keySeparator.toList [.colon] :=
  lexes_colon.append (lexes_blanks (s := [' ']) (by decide))

/-- What ends an item's line, a comma unless it is the last one. -/
theorem lexes_lineEnd (last : Bool) :
    Lexes (if last && !standard.trailingComma then "\n" else ",\n").toList
      (if last then [] else [.comma]) := by
  cases last with
  | true => exact lexes_newline
  | false => exact lexes_comma.append lexes_newline

/-- No numeral goes on with a mark. -/
theorem ends_mark {c : Char} (h : Numeral.isNumeralChar c = false) (s : List Char) :
    Numeral.Ends (c :: s) := by
  intro d hd
  exact Option.some.inj hd ▸ h

theorem ends_lineEnd (last : Bool) (k : List Char) :
    Numeral.Ends ((if last && !standard.trailingComma then "\n" else ",\n").toList ++ k) := by
  cases last with
  | true => exact ends_mark (by decide) k
  | false => exact ends_mark (by decide) _

/-- Parts on lines of their own, in brackets. -/
theorem lexes_brackets {opening closing : String} {t t' : Token} {s : Source} {ts : List Token}
    (hopening : Lexes opening.toList [t]) (hclosing : Lexes closing.toList [t'])
    (h : Lexes (chars s) ts) (depth : Nat) :
    Lexes (chars (.concat [[.text opening, "\n"], s,
      [standard.indentation depth, .text closing]])) (t :: (ts ++ [t'])) := by
  have hopen := hopening.append lexes_newline
  have hclose := (lexes_margin depth).append hclosing
  have hall := (hopen.append h).append hclose
  simpa [Dialect.indentation, Dialect.margin] using hall

mutual

theorem lexes_source : ∀ (v : Json) (depth : Nat),
    LexesBefore (chars (v.source standard depth)) v.tokens
  | .null, _ => by simpa [source, standard, tokens] using lexes_null.before
  | .bool true, _ => by simpa [source, standard, tokens] using lexes_true.before
  | .bool false, _ => by simpa [source, standard, tokens] using lexes_false.before
  | .number n, _ => by simpa [source, tokens] using lexes_number n
  | .string s, _ => by simpa [source, tokens] using (lexes_string s).before
  | .array [], _ => by
    have h := lexes_leftBracket.append lexes_rightBracket
    simpa [source, standard, tokens, itemTokens] using h.before
  | .object [], _ => by
    have h := lexes_leftBrace.append lexes_rightBrace
    simpa [source, standard, tokens, memberTokens] using h.before
  | .array (v :: vs), depth => by
    have hitems := lexes_itemsSource (v :: vs) depth
    exact (lexes_brackets lexes_leftBracket lexes_rightBracket hitems depth).before
  | .object (m :: ms), depth => by
    have hmembers := lexes_membersSource (m :: ms) depth
    exact (lexes_brackets lexes_leftBrace lexes_rightBrace hmembers depth).before

theorem lexes_itemsSource : ∀ (vs : List Json) (depth : Nat),
    Lexes (chars (itemsSource standard depth vs)) (itemTokens vs)
  | [], _ => lexes_nil
  | v :: vs, depth => by
    have hv := (lexes_source v (depth + 1)).append (lexes_lineEnd vs.isEmpty) (ends_lineEnd _)
    have h := ((lexes_margin (depth + 1)).append hv).append (lexes_itemsSource vs depth)
    simpa [itemsSource, itemTokens, Dialect.indentation, Dialect.lineEnd, Dialect.margin] using h

theorem lexes_membersSource : ∀ (ms : List Member) (depth : Nat),
    Lexes (chars (membersSource standard depth ms)) (memberTokens ms)
  | [], _ => lexes_nil
  | (key, v) :: ms, depth => by
    have hkey := (lexes_margin (depth + 1)).append ((lexes_string key).append lexes_keySeparator)
    have hv := (lexes_source v (depth + 1)).append (lexes_lineEnd ms.isEmpty) (ends_lineEnd _)
    have h := (hkey.append hv).append (lexes_membersSource ms depth)
    simpa [membersSource, memberTokens, Dialect.indentation, Dialect.lineEnd, Dialect.margin]
      using h

end

/-- The layout over lines spells its value. -/
theorem spells_pretty (v : Json) : Spells v.pretty v := (lexes_source v 0).ofText?_eq

mutual

theorem lexes_compactSource : ∀ v : Json, LexesBefore (chars v.compactSource) v.tokens
  | .null => by simpa [compactSource, tokens] using lexes_null.before
  | .bool true => by simpa [compactSource, tokens] using lexes_true.before
  | .bool false => by simpa [compactSource, tokens] using lexes_false.before
  | .number n => by simpa [compactSource, tokens] using lexes_number n
  | .string s => by simpa [compactSource, tokens] using (lexes_string s).before
  | .array vs => by
    have hitems := (lexes_compactItems vs).append lexes_rightBracket (ends_mark (by decide))
    have h := lexes_leftBracket.append hitems
    simpa [compactSource, tokens] using h.before
  | .object ms => by
    have hmembers := (lexes_compactMembers ms).append lexes_rightBrace (ends_mark (by decide))
    have h := lexes_leftBrace.append hmembers
    simpa [compactSource, tokens] using h.before

theorem lexes_compactItems : ∀ vs : List Json,
    LexesBefore (chars (compactItems vs)) (itemTokens vs)
  | [] => lexes_nil.before
  | [v] => by simpa [compactItems, itemTokens] using lexes_compactSource v
  | v :: w :: vs => by
    have hv := (lexes_compactSource v).append lexes_comma (ends_mark (by decide))
    have h := hv.append_before (lexes_compactItems (w :: vs))
    simpa [compactItems, itemTokens] using h

theorem lexes_compactMembers : ∀ ms : List Member,
    LexesBefore (chars (compactMembers ms)) (memberTokens ms)
  | [] => lexes_nil.before
  | [(key, v)] => by
    have h := ((lexes_string key).append lexes_colon).append_before (lexes_compactSource v)
    simpa [compactMembers, memberTokens] using h
  | (key, v) :: m :: ms => by
    have hkey := ((lexes_string key).append lexes_colon).append_before (lexes_compactSource v)
    have h := (hkey.append lexes_comma (ends_mark (by decide))).append_before
      (lexes_compactMembers (m :: ms))
    simpa [compactMembers, memberTokens] using h

end

/-- So does the layout on one line. -/
theorem spells_compact (v : Json) : Spells v.compact v := (lexes_compactSource v).ofText?_eq

end CurlCode.Json

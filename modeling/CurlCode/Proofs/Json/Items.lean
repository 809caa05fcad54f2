import CurlCode.Proofs.Json.Shape
import CurlCode.Proofs.Json.Tokens

/-!
A reader of JSON values in a dialect. Blanks may stand anywhere between the tokens; an
empty container has a spelling of its own, and in a dialect with trailing commas every
item takes one. If the items of a container are read back, so is their list
(`readItems_lines`).
-/
namespace CurlCode.Json

open Text

namespace Dialect

/-- The values that a dialect has a word for. -/
def words (d : Dialect) : List (String × Json) :=
  [(d.null, .null), (d.yes, .bool true), (d.no, .bool false), (d.emptyArray, .array []),
    (d.emptyObject, .object [])]

/-- The separator of keys and values without the blanks around it. -/
def separator (d : Dialect) : List Char := trimBy isBlank d.keySeparator.toList

end Dialect

def readString : List Lexeme → Option (Json × List Lexeme)
  | .literal (some s) :: k => some (.string s, k)
  | _ => none

def readWord (d : Dialect) (ls : List Lexeme) : Option (Json × List Lexeme) :=
  d.words.findSome? fun w => (strip? w.1.toList ls).map (w.2, ·)

def readNumber (ls : List Lexeme) : Option (Json × List Lexeme) :=
  (Numeral.ofText? (numeralRun ls).1).map (.number ·, (numeralRun ls).2)

/-- A key, the separator and a value. -/
def readMember (d : Dialect) (value : List Lexeme → Option (Json × List Lexeme))
    (ls : List Lexeme) : Option (Member × List Lexeme) :=
  match skipBlanks ls with
  | .literal (some key) :: k => do
    let (v, k) ← value (← token? d.separator k)
    return ((key, v), k)
  | _ => none

/-- One item or more, and the bracket after them. -/
def readItems (d : Dialect) (item : List Lexeme → Option (α × List Lexeme))
    (close : List Char) : Nat → List Lexeme → Option (List α × List Lexeme)
  | 0, _ => none
  | n + 1, ls => do
    let (a, k) ← item ls
    match token? [','] k with
    | some k =>
      match if d.trailingComma then token? close k else none with
      | some k => return ([a], k)
      | none =>
        let (as, k) ← readItems d item close n k
        return (a :: as, k)
    | none => if d.trailingComma then none else return ([a], ← token? close k)

def readObject (d : Dialect) (value : List Lexeme → Option (Json × List Lexeme)) (n : Nat)
    (ls : List Lexeme) : Option (Json × List Lexeme) := do
  let k ← strip? d.objectOpen.toList ls
  let (ms, k) ← readItems d (readMember d value) d.objectClose.toList n k
  return (.object ms, k)

def readArray (d : Dialect) (value : List Lexeme → Option (Json × List Lexeme)) (n : Nat)
    (ls : List Lexeme) : Option (Json × List Lexeme) := do
  let k ← strip? d.arrayOpen.toList ls
  let (vs, k) ← readItems d value d.arrayClose.toList n k
  return (.array vs, k)

/-- A value in at most so many steps. Where arrays and objects share their brackets, the
separator after the first key tells them apart. -/
def read (d : Dialect) : Nat → List Lexeme → Option (Json × List Lexeme)
  | 0, _ => none
  | n + 1, ls =>
    let ls := skipBlanks ls
    readString ls <|> readWord d ls <|> readObject d (read d n) n ls <|>
      readArray d (read d n) n ls <|> readNumber ls

/-! ### Reading items -/

/-- Parts on lines of their own. -/
def lines (d : Dialect) (depth : Nat) (part : α → Source) : List α → Source
  | [] => []
  | a :: as => d.indentation depth :: (part a ++ d.lineEnd as.isEmpty :: lines d depth part as)

def memberSource (d : Dialect) (depth : Nat) (m : Member) : Source :=
  .literal m.1 :: .text d.keySeparator :: m.2.source d depth

theorem itemsSource_eq (d : Dialect) (depth : Nat) (vs : List Json) :
    itemsSource d depth vs = lines d (depth + 1) (source d (depth + 1)) vs := by
  induction vs with
  | nil => rfl
  | cons v vs ih => rw [itemsSource, lines, ih]

theorem membersSource_eq (d : Dialect) (depth : Nat) (ms : List Member) :
    membersSource d depth ms = lines d (depth + 1) (memberSource d (depth + 1)) ms := by
  induction ms with
  | nil => rfl
  | cons m ms ih =>
    obtain ⟨key, v⟩ := m
    rw [membersSource, lines, ih]
    rfl

/-- The blanks before a bracket or an item. -/
def Dialect.margin (d : Dialect) (depth : Nat) : List Char :=
  (String.join (List.replicate depth d.indent)).toList

theorem all_margin {d : Dialect} {p : Char → Bool} (h : d.indent.toList.all p) (depth : Nat) :
    ∀ c ∈ d.margin depth, p c := by
  induction depth with
  | zero => simp [Dialect.margin]
  | succ depth ih =>
    intro c hc
    simp only [Dialect.margin, List.replicate_succ, String.join_cons, String.toList_append,
      List.mem_append] at hc
    rcases hc with hc | hc
    · exact List.all_eq_true.1 h c hc
    · exact ih c hc

/-- A reader that passes over the blanks before what it reads. -/
def SkipsBlanks (item : List Lexeme → Option (α × List Lexeme)) : Prop :=
  ∀ ls, item (skipBlanks ls) = item ls

theorem SkipsBlanks.blank {item : List Lexeme → Option (α × List Lexeme)} (h : SkipsBlanks item)
    {s : List Char} (hs : ∀ c ∈ s, isBlank c) (k : List Lexeme) :
    item (s.map .plain ++ k) = item k := by
  rw [← h, skipBlanks_blank hs, h]

theorem skipsBlanks_readItems {item : List Lexeme → Option (α × List Lexeme)}
    (h : SkipsBlanks item) (d : Dialect) (close : List Char) (n : Nat) :
    SkipsBlanks (readItems d item close n) := by
  intro ls
  cases n with
  | zero => rfl
  | succ n => rw [readItems, readItems, h]

theorem skipsBlanks_readMember (d : Dialect)
    (value : List Lexeme → Option (Json × List Lexeme)) : SkipsBlanks (readMember d value) := by
  intro ls
  rw [readMember, readMember, skipBlanks_skipBlanks]

theorem skipsBlanks_read (d : Dialect) (n : Nat) : SkipsBlanks (read d n) := by
  intro ls
  cases n with
  | zero => rfl
  | succ n => rw [read, read, skipBlanks_skipBlanks]

section Items

variable {d : Dialect} {q : Quoting} {item : List Lexeme → Option (α × List Lexeme)}
  {part : α → Source} {close : List Char}

theorem lexemes_lines (hd : d.Markless q) (depth : Nat) (a : α) (as : List α) :
    Source.lexemes q (lines d depth part (a :: as)) =
      (d.margin depth).map .plain ++ (Source.lexemes q (part a) ++
        ((if as.isEmpty && !d.trailingComma then ['\n'] else [',', '\n']).map .plain ++
          Source.lexemes q (lines d depth part as))) := by
  rw [lines, Source.lexemes_cons, Source.lexemes_append, Source.lexemes_cons, Dialect.lineEnd,
    Dialect.indentation, Fragment.lexemes_text (hd.indentation depth),
    Fragment.lexemes_text (markless_lineEnd q d _), plain, plain, Dialect.margin]
  split <;> rfl

theorem readItems_lines (hd : d.Markless q) (hindent : d.indent.toList.all isBlank)
    (hskip : SkipsBlanks item) (hclose : Solid close) (hcomma : Clash [','] close)
    (depth base : Nat) (as : List α) (hne : as ≠ [])
    (hitem : ∀ a ∈ as, ∀ k, Ended k → item (Source.lexemes q (part a) ++ k) = some (a, k))
    (hopen : d.trailingComma → ∀ a ∈ as, ∀ k, token? close (Source.lexemes q (part a) ++ k) = none)
    (n : Nat) (hn : as.length ≤ n) (k : List Lexeme) :
    readItems d item close n (Source.lexemes q (lines d depth part as) ++
      ((d.margin base).map .plain ++ (close.map .plain ++ k))) = some (as, k) := by
  have hmargin := all_margin hindent
  have hline := isBlank_newline
  induction as generalizing n with
  | nil => exact absurd rfl hne
  | cons a as ih =>
    obtain ⟨n, rfl⟩ : ∃ m, n = m + 1 := ⟨n - 1, by simp at hn; omega⟩
    have hcommaSolid : Solid [','] := by decide
    have hlast : token? close (['\n'].map .plain ++ ((d.margin base).map .plain ++
        (close.map .plain ++ k))) = some k := by
      rw [token?_blank hline, token?_blank (hmargin base), token?_append hclose]
    have hnoComma : token? [','] (['\n'].map .plain ++ ((d.margin base).map .plain ++
        (close.map .plain ++ k))) = none := by
      rw [token?_blank hline, token?_blank (hmargin base), token?_clash hclose hcomma]
    have hsplit : ([',', '\n'].map Lexeme.plain : List Lexeme) =
        [','].map .plain ++ ['\n'].map .plain := rfl
    have hended (k : List Lexeme) : Ended ([','].map .plain ++ k) := ended_solid hcommaSolid k
    have hended' (k : List Lexeme) : Ended (['\n'].map .plain ++ k) := by
      intro c hc
      obtain rfl : '\n' = c := by simpa using hc
      decide
    rw [lexemes_lines hd, List.append_assoc, readItems, hskip.blank (hmargin depth),
      List.append_assoc, List.append_assoc]
    cases as with
    | nil =>
      rw [lines, Source.lexemes_nil, List.nil_append]
      cases htrailing : d.trailingComma with
      | true =>
        simp only [List.isEmpty_nil, Bool.not_true, Bool.and_false, Bool.false_eq_true, if_false,
          if_true, hsplit, List.append_assoc]
        rw [hitem a (by simp) _ (hended _)]
        simp only [Option.bind_eq_bind, Option.bind_some]
        rw [token?_append hcommaSolid]
        simp only [hlast]
        rfl
      | false =>
        simp only [List.isEmpty_nil, Bool.not_false, Bool.and_true, Bool.false_eq_true, if_false,
          if_true]
        rw [hitem a (by simp) _ (hended' _)]
        simp only [Option.bind_eq_bind, Option.bind_some, hnoComma, hlast]
        rfl
    | cons b bs =>
      have hnext := ih (by simp) (fun x hx => hitem x (by simp [hx]))
        (fun ht x hx => hopen ht x (by simp [hx])) n (by simpa using hn)
      have hnoClose : (if d.trailingComma then token? close (['\n'].map .plain ++
          (Source.lexemes q (lines d depth part (b :: bs)) ++ ((d.margin base).map .plain ++
            (close.map .plain ++ k)))) else none) = none := by
        split
        · next ht =>
          rw [token?_blank hline, lexemes_lines hd, List.append_assoc,
            token?_blank (hmargin depth), List.append_assoc, hopen ht b (by simp)]
        · rfl
      simp only [List.isEmpty_cons, Bool.false_and, Bool.false_eq_true, if_false, hsplit,
        List.append_assoc]
      rw [hitem a (by simp) _ (hended _)]
      simp only [Option.bind_eq_bind, Option.bind_some]
      rw [token?_append hcommaSolid]
      simp only [hnoClose]
      rw [(skipsBlanks_readItems hskip d close n).blank hline, hnext]
      rfl

end Items

end CurlCode.Json

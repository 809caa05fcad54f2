import CurlCode.Proofs.Json.Items

/-!
A value's source is read back, whatever follows it (`read_source`), so it ends where the
value does (`source_cancel`). The texts of the dialect have to tell its values apart.
-/
namespace CurlCode

namespace Json

open Text

/-- The texts that a value which is no string or number starts with. -/
def Dialect.starts (d : Dialect) : List (List Char) :=
  d.words.map (·.1.toList) ++ [d.objectOpen.toList, d.arrayOpen.toList]

/-- The texts of the dialect tell its values apart. -/
structure Dialect.Readable (q : Quoting) (d : Dialect) : Prop where
  markless : d.Markless q
  indent : d.indent.toList.all isBlank
  starts : ∀ t ∈ d.starts, Solid t
  words : (d.words.map (·.1.toList)).Pairwise Clash
  /-- A word is no bracket with a line after it. -/
  brackets : ∀ w ∈ d.words, Clash w.1.toList (d.objectOpen.toList ++ ['\n']) ∧
    Clash w.1.toList (d.arrayOpen.toList ++ ['\n'])
  opens : d.objectOpen = d.arrayOpen ∨ Clash d.objectOpen.toList d.arrayOpen.toList
  objectClose : Solid d.objectClose.toList ∧ Clash [','] d.objectClose.toList
  arrayClose : Solid d.arrayClose.toList ∧ Clash [','] d.arrayClose.toList
  /-- After a trailing comma a bracket is no item. -/
  closes : d.trailingComma → ∀ t ∈ d.starts, Clash d.arrayClose.toList t
  separator : Solid d.separator ∧ Clash d.separator [','] ∧
    Clash d.separator d.arrayClose.toList

theorem trimBy_blank (s : List Char) : ∃ a b, s = a ++ (trimBy isBlank s ++ b) ∧
    (∀ c ∈ a, isBlank c) ∧ ∀ c ∈ b, isBlank c := by
  refine ⟨s.takeWhile isBlank, ((s.dropWhile isBlank).reverse.takeWhile isBlank).reverse, ?_, ?_,
    ?_⟩
  · have h := congrArg List.reverse (List.takeWhile_append_dropWhile (p := isBlank)
      (l := (s.dropWhile isBlank).reverse))
    rw [List.reverse_append, List.reverse_reverse] at h
    rw [trimBy, h, List.takeWhile_append_dropWhile]
  · intro c hc
    exact List.all_eq_true.1 List.all_takeWhile c hc
  · intro c hc
    exact List.all_eq_true.1 List.all_takeWhile c (List.mem_reverse.1 hc)

mutual

/-- The number of values in a value, itself included. -/
def weight : Json → Nat
  | .array vs => itemsWeight vs + 1
  | .object ms => membersWeight ms + 1
  | .null | .bool _ | .number _ | .string _ => 1

def itemsWeight : List Json → Nat
  | [] => 0
  | v :: vs => weight v + itemsWeight vs

def membersWeight : List Member → Nat
  | [] => 0
  | (_, v) :: ms => weight v + membersWeight ms

end

theorem weight_pos (v : Json) : 0 < weight v := by
  cases v <;> simp [weight]

theorem length_le_itemsWeight (vs : List Json) : vs.length ≤ itemsWeight vs := by
  induction vs with
  | nil => exact Nat.le_refl 0
  | cons v vs ih =>
    have := weight_pos v
    rw [itemsWeight, List.length_cons]
    omega

theorem length_le_membersWeight (ms : List Member) : ms.length ≤ membersWeight ms := by
  induction ms with
  | nil => exact Nat.le_refl 0
  | cons m ms ih =>
    obtain ⟨key, v⟩ := m
    have := weight_pos v
    rw [membersWeight, List.length_cons]
    omega

/-- How a value starts; behind a string stands `k`. -/
inductive Starts (d : Dialect) (k : List Lexeme) : List Lexeme → Prop
  | literal (s : String) : Starts d k (.literal (some s) :: k)
  | numeral {c : Char} (h : Numeral.isNumeralChar c) (ls : List Lexeme) :
    Starts d k (.plain c :: ls)
  | text {t : List Char} (h : t ∈ d.starts) (ls : List Lexeme) : Starts d k (t.map .plain ++ ls)

theorem not_isBlank_of_isNumeralChar {c : Char} (h : Numeral.isNumeralChar c) :
    isBlank c = false := by
  simp only [Numeral.isNumeralChar, Bool.or_eq_true, beq_iff_eq] at h
  rcases h with ((((h | rfl) | rfl) | rfl) | rfl) | rfl
  · simp only [Char.isDigit, Bool.and_eq_true, decide_eq_true_eq] at h
    have h₁ : 48 ≤ c.toNat := h.1
    have h₂ : c.toNat ≤ 57 := h.2
    simp [isBlank]
    omega
  all_goals decide

theorem Starts.skipBlanks {q : Quoting} {d : Dialect} (hd : d.Readable q) {k ls : List Lexeme}
    (h : Starts d k ls) : Json.skipBlanks ls = ls := by
  cases h with
  | literal s => rfl
  | numeral hc ls => simp [Json.skipBlanks, Lexeme.isBlank, not_isBlank_of_isNumeralChar hc]
  | text ht ls => exact skipBlanks_solid (hd.starts _ ht) ls

theorem Starts.token?_close {q : Quoting} {d : Dialect} (hd : d.Readable q)
    {k ls : List Lexeme} (h : Starts d k ls) (htrailing : d.trailingComma) :
    token? d.arrayClose.toList ls = none := by
  rw [token?, h.skipBlanks hd]
  cases h with
  | literal s => exact strip?_head hd.arrayClose.1 (by simp)
  | numeral hc ls =>
    refine strip?_head hd.arrayClose.1 ?_
    intro c' hc' hhead
    obtain ⟨e, he, -, hnumeral⟩ := hd.arrayClose.1
    simp_all
  | text ht ls => exact strip?_clash (hd.closes htrailing _ ht) ls

/-- A value is no member if no separator stands behind it. -/
theorem Starts.readMember {q : Quoting} {d : Dialect} (hd : d.Readable q) {k ls : List Lexeme}
    (h : Starts d k ls) (hk : token? d.separator k = none)
    (value : List Lexeme → Option (Json × List Lexeme)) : Json.readMember d value ls = none := by
  rw [Json.readMember, h.skipBlanks hd]
  cases h with
  | literal s => simp [hk]
  | numeral hc ls => rfl
  | text ht ls =>
    obtain ⟨c, hc, -⟩ := hd.starts _ ht
    next t =>
      cases t with
      | nil => simp at hc
      | cons e t => rfl

theorem source_word {d : Dialect} {w : String × Json} (hw : w ∈ d.words) (depth : Nat) :
    w.2.source d depth = [.text w.1] ∧ w.1 ∈ d.texts := by
  simp only [Dialect.words, List.mem_cons, List.not_mem_nil, or_false] at hw
  rcases hw with rfl | rfl | rfl | rfl | rfl <;> simp [source, Dialect.texts]

theorem findSome?_strip {ws : List (String × Json)}
    (h : (ws.map (·.1.toList)).Pairwise Clash) {w : String × Json} (hw : w ∈ ws)
    (k : List Lexeme) :
    ws.findSome? (fun u => (strip? u.1.toList (w.1.toList.map .plain ++ k)).map (u.2, ·)) =
      some (w.2, k) := by
  induction ws with
  | nil => simp at hw
  | cons u ws ih =>
    rw [List.map_cons, List.pairwise_cons] at h
    rcases List.mem_cons.1 hw with rfl | hw
    · simp [strip?_append]
    · have hu : Clash u.1.toList w.1.toList := h.1 _ (List.mem_map.2 ⟨w, hw, rfl⟩)
      simp [strip?_clash hu, ih h.2 hw]

theorem readWord_eq_none {d : Dialect} {ls : List Lexeme}
    (h : ∀ w ∈ d.words, strip? w.1.toList ls = none) : readWord d ls = none := by
  rw [readWord, List.findSome?_eq_none_iff]
  intro w hw
  rw [h w hw, Option.map_none]

theorem readString_text {t : List Char} (h : Solid t) (k : List Lexeme) :
    readString (t.map .plain ++ k) = none := by
  obtain ⟨c, hc, -⟩ := h
  cases t with
  | nil => simp at hc
  | cons d t => rfl

section Values

variable {q : Quoting} {d : Dialect} (hd : d.Readable q)
include hd

theorem solid_of_mem_words {w : String × Json} (hw : w ∈ d.words) : Solid w.1.toList :=
  hd.starts _ (List.mem_append.2 (.inl (List.mem_map.2 ⟨w, hw, rfl⟩)))

theorem solid_objectOpen : Solid d.objectOpen.toList := hd.starts _ (by simp [Dialect.starts])

theorem solid_arrayOpen : Solid d.arrayOpen.toList := hd.starts _ (by simp [Dialect.starts])

theorem read_word {w : String × Json} (hw : w ∈ d.words) (n : Nat) (k : List Lexeme) :
    read d (n + 1) (w.1.toList.map .plain ++ k) = some (w.2, k) := by
  have hsolid := solid_of_mem_words hd hw
  have hword : readWord d (w.1.toList.map .plain ++ k) = some (w.2, k) :=
    findSome?_strip hd.words hw k
  simp only [read, skipBlanks_solid hsolid, readString_text hsolid, hword]
  rfl

theorem read_number (m : Numeral) (n : Nat) {k : List Lexeme} (hk : Ended k) :
    read d (n + 1) (m.text.map .plain ++ k) = some (.number m, k) := by
  have hchar : ∀ c ∈ m.text, Numeral.isNumeralChar c :=
    fun c hc => Numeral.isNumeralChar_of_mem hc
  obtain ⟨c, t, ht⟩ := List.exists_cons_of_ne_nil m.text_ne_nil
  have hc : Numeral.isNumeralChar c := hchar c (by simp [ht])
  have hblank := not_isBlank_of_isNumeralChar hc
  -- a token goes on with no numeral, so none of them is in front of one
  have hstrip {s : List Char} (hs : Solid s) : strip? s (m.text.map .plain ++ k) = none := by
    refine strip?_head hs ?_
    intro e he hhead
    obtain ⟨f, hf, -, hnumeral⟩ := hs
    simp_all
  have hskip : skipBlanks (m.text.map .plain ++ k) = m.text.map .plain ++ k := by
    simp [ht, skipBlanks, Lexeme.isBlank, hblank]
  have hstring : readString (m.text.map .plain ++ k) = none := by
    rw [ht]
    rfl
  have hword : readWord d (m.text.map .plain ++ k) = none :=
    readWord_eq_none fun w hw => hstrip (solid_of_mem_words hd hw)
  have hnumber : readNumber (m.text.map .plain ++ k) = some (.number m, k) := by
    simp [readNumber, numeralRun_append hchar hk, Numeral.ofText?_text]
  simp only [read, hskip, hstring, hword, readObject, hstrip (solid_objectOpen hd), readArray,
    hstrip (solid_arrayOpen hd), hnumber]
  rfl

omit hd in
/-- No word stands at the front of a bracket with a line after it. -/
theorem readWord_bracket {t : List Char} (h : ∀ w ∈ d.words, Clash w.1.toList (t ++ ['\n']))
    (k : List Lexeme) : readWord d (t.map .plain ++ (['\n'].map .plain ++ k)) = none := by
  refine readWord_eq_none fun w hw => ?_
  rw [← List.append_assoc, ← List.map_append]
  exact strip?_clash (h w hw) k

theorem read_object {ms : List Member} {n : Nat} {ls k : List Lexeme}
    (h : readItems d (readMember d (read d n)) d.objectClose.toList n ls = some (ms, k)) :
    read d (n + 1) (d.objectOpen.toList.map .plain ++ (['\n'].map .plain ++ ls)) =
      some (.object ms, k) := by
  have hsolid := solid_objectOpen hd
  have hline := isBlank_newline
  have hword := readWord_bracket (fun w hw => (hd.brackets w hw).1) ls
  have hskip := skipsBlanks_readItems (skipsBlanks_readMember d (read d n)) d
    d.objectClose.toList n
  simp only [read, skipBlanks_solid hsolid, readString_text hsolid, hword, readObject,
    strip?_append, Option.bind_eq_bind, Option.bind_some, hskip.blank hline, h]
  rfl

/-- Where the brackets are those of objects too, the first item must be no member. -/
theorem read_array {vs : List Json} {n : Nat} {ls k : List Lexeme}
    (hmember : readMember d (read d n) ls = none)
    (h : readItems d (read d n) d.arrayClose.toList n ls = some (vs, k)) :
    read d (n + 1) (d.arrayOpen.toList.map .plain ++ (['\n'].map .plain ++ ls)) =
      some (.array vs, k) := by
  have hsolid := solid_arrayOpen hd
  have hline := isBlank_newline
  have hword := readWord_bracket (fun w hw => (hd.brackets w hw).2) ls
  have hskip := skipsBlanks_readItems (skipsBlanks_read d n) d d.arrayClose.toList n
  have hskip' := skipsBlanks_readItems (skipsBlanks_readMember d (read d n)) d
    d.objectClose.toList n
  have hnone : readItems d (readMember d (read d n)) d.objectClose.toList n ls = none := by
    cases n with
    | zero => rfl
    | succ n => rw [readItems, hmember]; rfl
  have hobject : readObject d (read d n) n (d.arrayOpen.toList.map .plain ++
      (['\n'].map .plain ++ ls)) = none := by
    rw [readObject]
    rcases hd.opens with hopen | hopen
    · rw [hopen, strip?_append, Option.bind_eq_bind, Option.bind_some, hskip'.blank hline, hnone]
      rfl
    · rw [strip?_clash hopen]
      rfl
  simp only [read, skipBlanks_solid hsolid, readString_text hsolid, hword, hobject, readArray,
    strip?_append, Option.bind_eq_bind, Option.bind_some, hskip.blank hline, h]
  rfl

theorem starts_source (v : Json) (depth : Nat) (k : List Lexeme) :
    Starts d k (Source.lexemes q (v.source d depth) ++ k) := by
  have hword {w : String × Json} (hw : w ∈ d.words) :
      Starts d k (Source.lexemes q (w.2.source d depth) ++ k) := by
    obtain ⟨hsource, htext⟩ := source_word hw depth
    rw [hsource, Source.lexemes_cons, Source.lexemes_nil, List.append_nil,
      Fragment.lexemes_text (hd.markless _ htext)]
    exact .text (List.mem_append.2 (.inl (List.mem_map.2 ⟨w, hw, rfl⟩))) _
  have hopen {t : String} (ht : t ∈ d.texts) (hstart : t.toList ∈ d.starts) (s : Source) :
      Starts d k (Source.lexemes q (.text t :: s) ++ k) := by
    rw [Source.lexemes_cons, Fragment.lexemes_text (hd.markless _ ht), List.append_assoc]
    exact .text hstart _
  cases v with
  | null => exact hword (w := (d.null, .null)) (by simp [Dialect.words])
  | bool b =>
    cases b
    · exact hword (w := (d.no, .bool false)) (by simp [Dialect.words])
    · exact hword (w := (d.yes, .bool true)) (by simp [Dialect.words])
  | string s => exact .literal s
  | number m =>
    obtain ⟨c, t, ht⟩ := List.exists_cons_of_ne_nil m.text_ne_nil
    have hc : Numeral.isNumeralChar c := Numeral.isNumeralChar_of_mem (n := m) (by simp [ht])
    rw [source, Source.lexemes_cons, Fragment.lexemes_text (markless_number q m), plain,
      String.toList_ofList, ht]
    exact .numeral hc _
  | array vs =>
    cases vs with
    | nil => exact hword (w := (d.emptyArray, .array [])) (by simp [Dialect.words])
    | cons v vs => exact hopen (by simp [Dialect.texts]) (by simp [Dialect.starts]) _
  | object ms =>
    cases ms with
    | nil => exact hword (w := (d.emptyObject, .object [])) (by simp [Dialect.words])
    | cons m ms => exact hopen (by simp [Dialect.texts]) (by simp [Dialect.starts]) _

theorem readMember_source {m : Member} {n depth : Nat} {k : List Lexeme}
    (h : read d n (Source.lexemes q (m.2.source d depth) ++ k) = some (m.2, k)) :
    readMember d (read d n) (Source.lexemes q (memberSource d depth m) ++ k) = some (m, k) := by
  obtain ⟨a, b, hkey, ha, hb⟩ := trimBy_blank d.keySeparator.toList
  have hkeyMark := hd.markless d.keySeparator (by simp [Dialect.texts])
  rw [memberSource, Source.lexemes_cons, Source.lexemes_cons, Fragment.lexemes_text hkeyMark,
    plain, hkey, ← Dialect.separator, Fragment.lexemes_literal]
  simp only [List.map_append, List.append_assoc, List.cons_append, List.nil_append, readMember,
    skipBlanks_literal, token?_blank ha, token?_append hd.separator.1, Option.bind_eq_bind,
    Option.bind_some, (skipsBlanks_read d n).blank hb, h]
  rfl

/-- What stands behind the first item of an array is no separator. -/
theorem readMember_array (v : Json) (vs : List Json) (n depth base : Nat) (k : List Lexeme) :
    readMember d (read d n) (Source.lexemes q (lines d depth (source d depth) (v :: vs)) ++
      ((d.margin base).map .plain ++ (d.arrayClose.toList.map .plain ++ k))) = none := by
  have hmargin := all_margin hd.indent
  have hline := isBlank_newline
  rw [lexemes_lines hd.markless, List.append_assoc,
    (skipsBlanks_readMember d (read d n)).blank (hmargin depth), List.append_assoc]
  refine (starts_source hd v depth _).readMember hd ?_ (read d n)
  split
  · next hlast =>
    simp only [Bool.and_eq_true, List.isEmpty_iff] at hlast
    rw [hlast.1, lines, Source.lexemes_nil, List.append_nil, token?_blank hline,
      token?_blank (hmargin base), token?_clash hd.arrayClose.1 hd.separator.2.2]
  · have hsplit : ([',', '\n'].map Lexeme.plain : List Lexeme) =
        [','].map .plain ++ ['\n'].map .plain := rfl
    rw [hsplit, List.append_assoc, List.append_assoc,
      token?_clash (by decide) hd.separator.2.1]

theorem read_source_word {w : String × Json} (hw : w ∈ d.words) (depth n : Nat)
    (k : List Lexeme) :
    read d (n + 1) (Source.lexemes q (w.2.source d depth) ++ k) = some (w.2, k) := by
  obtain ⟨hsource, htext⟩ := source_word hw depth
  rw [hsource, Source.lexemes_cons, Source.lexemes_nil, List.append_nil,
    Fragment.lexemes_text (hd.markless _ htext)]
  exact read_word hd hw n k

/-- A bracket, lines, and the bracket that closes them. -/
theorem lexemes_brackets {opening closing : String} (hopen : opening ∈ d.texts)
    (hclose : closing ∈ d.texts) (s : Source) (depth : Nat) (k : List Lexeme) :
    Source.lexemes q (.concat [[.text opening, "\n"], s, [d.indentation depth, .text closing]]) ++
        k =
      opening.toList.map .plain ++ (['\n'].map .plain ++ (Source.lexemes q s ++
        ((d.margin depth).map .plain ++ (closing.toList.map .plain ++ k)))) := by
  have hline : q.mark ∉ "\n".toList := by cases q <;> decide
  simp only [Source.concat_cons, Source.concat_nil, Source.lexemes_append, Source.lexemes_cons,
    Source.lexemes_nil, Dialect.indentation, Fragment.lexemes_text (hd.markless _ hopen),
    Fragment.lexemes_text (hd.markless _ hclose), Fragment.lexemes_text hline,
    Fragment.lexemes_text (hd.markless.indentation depth), plain, Dialect.margin,
    List.append_assoc, List.append_nil]
  rfl

end Values

mutual

/-- A value's source is read back, whatever follows it, as long as that goes on with no
numeral. -/
theorem read_source {q : Quoting} {d : Dialect} (hd : d.Readable q) : ∀ (v : Json)
    (depth n : Nat) (k : List Lexeme), weight v ≤ n → Ended k →
      read d n (Source.lexemes q (v.source d depth) ++ k) = some (v, k)
  | v, depth, 0, k, hn, _ => by
    have := weight_pos v
    omega
  | .null, depth, n + 1, k, _, _ =>
    read_source_word hd (w := (d.null, .null)) (by simp [Dialect.words]) depth n k
  | .bool true, depth, n + 1, k, _, _ =>
    read_source_word hd (w := (d.yes, .bool true)) (by simp [Dialect.words]) depth n k
  | .bool false, depth, n + 1, k, _, _ =>
    read_source_word hd (w := (d.no, .bool false)) (by simp [Dialect.words]) depth n k
  | .number m, depth, n + 1, k, _, hk => by
    rw [source, Source.lexemes_cons, Fragment.lexemes_text (markless_number q m), plain,
      String.toList_ofList, Source.lexemes_nil, List.append_nil]
    exact read_number hd m n hk
  | .string s, depth, n + 1, k, _, _ => rfl
  | .array [], depth, n + 1, k, _, _ =>
    read_source_word hd (w := (d.emptyArray, .array [])) (by simp [Dialect.words]) depth n k
  | .object [], depth, n + 1, k, _, _ =>
    read_source_word hd (w := (d.emptyObject, .object [])) (by simp [Dialect.words]) depth n k
  | .array (v :: vs), depth, n + 1, k, hn, _ => by
    have hlength := length_le_itemsWeight (v :: vs)
    rw [weight] at hn
    rw [source, lexemes_brackets hd (by simp [Dialect.texts]) (by simp [Dialect.texts]),
      itemsSource_eq]
    refine read_array hd (readMember_array hd v vs n (depth + 1) depth k) ?_
    refine readItems_lines hd.markless hd.indent (skipsBlanks_read d n) hd.arrayClose.1
      hd.arrayClose.2 (depth + 1) depth (v :: vs) (by simp) ?_ ?_ n (by omega) k
    · exact read_items hd (v :: vs) (depth + 1) n (by omega)
    · intro htrailing w hw k
      exact (starts_source hd w (depth + 1) k).token?_close hd htrailing
  | .object (m :: ms), depth, n + 1, k, hn, _ => by
    have hlength := length_le_membersWeight (m :: ms)
    rw [weight] at hn
    rw [source, lexemes_brackets hd (by simp [Dialect.texts]) (by simp [Dialect.texts]),
      membersSource_eq]
    refine read_object hd ?_
    refine readItems_lines hd.markless hd.indent (skipsBlanks_readMember d (read d n))
      hd.objectClose.1 hd.objectClose.2 (depth + 1) depth (m :: ms) (by simp) ?_ ?_ n
      (by omega) k
    · intro a ha k hk
      exact readMember_source hd (read_members hd (m :: ms) (depth + 1) n (by omega) a ha k hk)
    · intro htrailing a ha k
      exact strip?_head hd.objectClose.1 (by simp [memberSource, skipBlanks_literal])

theorem read_items {q : Quoting} {d : Dialect} (hd : d.Readable q) : ∀ (vs : List Json)
    (depth n : Nat), itemsWeight vs ≤ n → ∀ v ∈ vs, ∀ k, Ended k →
      read d n (Source.lexemes q (v.source d depth) ++ k) = some (v, k)
  | [], _, _, _, _, hv, _, _ => absurd hv (by simp)
  | v :: vs, depth, n, hn, w, hw, k, hk => by
    rw [itemsWeight] at hn
    have hv := read_source hd v depth n k (by omega) hk
    have hvs := read_items hd vs depth n (by omega)
    rcases List.mem_cons.1 hw with rfl | hw
    · exact hv
    · exact hvs w hw k hk

theorem read_members {q : Quoting} {d : Dialect} (hd : d.Readable q) : ∀ (ms : List Member)
    (depth n : Nat), membersWeight ms ≤ n → ∀ m ∈ ms, ∀ k, Ended k →
      read d n (Source.lexemes q (m.2.source d depth) ++ k) = some (m.2, k)
  | [], _, _, _, _, hm, _, _ => absurd hm (by simp)
  | (key, v) :: ms, depth, n, hn, m, hm, k, hk => by
    rw [membersWeight] at hn
    have hv := read_source hd v depth n k (by omega) hk
    have hms := read_members hd ms depth n (by omega)
    rcases List.mem_cons.1 hm with rfl | hm
    · exact hv
    · exact hms m hm k hk

end

/-- The source of a value ends where the value does. -/
theorem source_cancel {q : Quoting} {d : Dialect} (hd : d.Readable q) {v w : Json}
    {depth depth' : Nat} {k k' : List Lexeme} (hk : Ended k) (hk' : Ended k')
    (h : Source.lexemes q (v.source d depth) ++ k = Source.lexemes q (w.source d depth') ++ k') :
    v = w ∧ k = k' := by
  have hv := read_source hd v depth (max (weight v) (weight w)) k (Nat.le_max_left _ _) hk
  have hw := read_source hd w depth' (max (weight v) (weight w)) k' (Nat.le_max_right _ _) hk'
  rw [h, hw] at hv
  simp only [Option.some.injEq, Prod.mk.injEq] at hv
  exact ⟨hv.1.symm, hv.2.symm⟩

/-- A value between texts. -/
theorem source_between {q : Quoting} {d : Dialect} (hd : d.Readable q) {before after : Source}
    {closing : String} {v w : Json} {depth : Nat} {k k' : List Lexeme}
    (hclosing : q.mark ∉ closing.toList)
    (hhead : closing.toList.head?.any fun c => !Numeral.isNumeralChar c)
    (h : Source.lexemes q (.concat [before, v.source d depth, .text closing :: after]) ++ k =
      Source.lexemes q (.concat [before, w.source d depth, .text closing :: after]) ++ k') :
    v = w ∧ k = k' := by
  simp only [Source.concat_cons, Source.concat_nil, Source.lexemes_append, Source.lexemes_cons,
    List.append_nil, List.append_assoc, List.append_cancel_left_eq] at h
  obtain ⟨hvw, hk⟩ := source_cancel hd (ended_text hclosing hhead _) (ended_text hclosing hhead _) h
  exact ⟨hvw, by simpa using hk⟩

end Json

end CurlCode

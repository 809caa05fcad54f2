import CurlCode.Proofs.Lexeme

/-!
A string literal by itself: it holds no control character where the language escapes them, its
content stands for the text, and it ends at the first mark that is not protected, whatever
follows (`quote_exact`).
-/
namespace CurlCode.Quoting

open Text

/-! ### Control characters -/

/-- No control character: not one of U+0000 to U+001F and U+007F to U+009F. -/
def Visible (c : Char) : Prop := 0x20 ≤ c.toNat ∧ (c.toNat < 0x7F ∨ 0x9F < c.toNat)

instance (c : Char) : Decidable (Visible c) := inferInstanceAs (Decidable (_ ∧ _))

theorem visible_of_not_isControl {c : Char} (h : ¬ isControl c) : Visible c := by
  simp only [isControl, Bool.or_eq_true, Bool.and_eq_true, decide_eq_true_eq, not_or] at h
  constructor <;> omega

theorem visible_of_all {s : List Char} (h : s.all (Visible ·)) : ∀ c ∈ s, Visible c := by
  intro c hc
  simpa using List.all_eq_true.1 h c hc

theorem hexPadded_visible : ∀ n < 0xA0, (hexPadded 4 n).all (Visible ·) := by
  decide +kernel

theorem hex_visible : ∀ n < 0xA0, (hex n).all (Visible ·) := by
  decide +kernel

theorem visible_escapeDouble (control : Nat → List Char)
    (hcontrol : ∀ n < 0xA0, ∀ d ∈ control n, Visible d) (c : Char) :
    ∀ d ∈ escapeDouble control c, Visible d := by
  rw [escapeDouble]
  split_ifs with h₁ h₂ h₃ h₄ h₅ h₆
  · exact visible_of_all (by decide)
  · exact visible_of_all (by decide)
  · exact visible_of_all (by decide)
  · exact visible_of_all (by decide)
  · exact visible_of_all (by decide)
  · exact hcontrol c.toNat (toNat_lt_of_isControl h₆)
  · simpa using visible_of_not_isControl h₆

/-- The quotings that escape the control characters. -/
theorem visible_escape {q : Quoting} (hq : q = .double ∨ q = .braced) (c : Char) :
    ∀ d ∈ q.escape c, Visible d := by
  rcases hq with rfl | rfl
  · refine visible_escapeDouble (fun n => '\\' :: 'u' :: hexPadded 4 n) (fun n hn => ?_) c
    have hdigits := visible_of_all (hexPadded_visible n hn)
    simp only [List.forall_mem_cons]
    exact ⟨by decide, by decide, hdigits⟩
  · refine visible_escapeDouble (fun n => '\\' :: 'u' :: '\x7b' :: hex n ++ ['\x7d'])
      (fun n hn => ?_) c
    have hdigits := visible_of_all (hex_visible n hn)
    simp only [List.forall_mem_append, List.forall_mem_cons]
    exact ⟨⟨by decide, by decide, by decide, hdigits⟩, by decide, List.forall_mem_nil _⟩

theorem toList_quote (q : Quoting) (s : String) :
    (q.quote s).toList = q.mark :: s.toList.flatMap q.escape ++ [q.mark] := by
  rw [quote, String.toList_ofList, literal]

theorem visible_quote {q : Quoting} (hq : q = .double ∨ q = .braced) (s : String) :
    ∀ d ∈ (q.quote s).toList, Visible d := by
  have hmark : Visible q.mark := by rcases hq with rfl | rfl <;> decide
  intro d hd
  rw [toList_quote] at hd
  simp only [List.cons_append, List.mem_cons, List.mem_append, List.mem_flatMap,
    List.not_mem_nil, or_false] at hd
  rcases hd with rfl | ⟨c, -, hd⟩ | rfl
  · exact hmark
  · exact visible_escape hq c d hd
  · exact hmark

/-! ### The end of a literal -/

theorem lexemes_quote_append (q : Quoting) (s r : String) :
    Place.outside.lexemes q (q.quote s ++ r).toList =
      .literal (some s) :: Place.outside.lexemes q r.toList := by
  obtain ⟨hafter, hlexemes⟩ := lexemes_literal q s.toList
  rw [String.toList_append, quote, String.toList_ofList, Place.lexemes_append, hafter, hlexemes,
    String.ofList_toList]
  rfl

theorem quote_append_inj (q : Quoting) {s s' r r' : String} :
    q.quote s ++ r = q.quote s' ++ r' ↔ s = s' ∧ r = r' := by
  constructor
  · intro h
    have hlexemes := lexemes_quote_append q s r
    rw [h, lexemes_quote_append, List.cons.injEq, Lexeme.literal.injEq, Option.some.injEq]
      at hlexemes
    obtain rfl := hlexemes.1
    exact ⟨rfl, by simpa using h⟩
  · rintro ⟨rfl, rfl⟩
    rfl

/-- A literal has no control character in double quotes, stands for its text, is read as one
literal whatever follows, and is told from what follows. -/
theorem quote_exact (s : String) :
    (∀ q ∈ [double, braced], ∀ c ∈ (q.quote s).toList, Visible c) ∧
    ∀ q : Quoting,
      (∃ content, (q.quote s).toList = q.mark :: content ++ [q.mark] ∧
        q.unescape content = some s.toList) ∧
      ∀ r, Place.outside.lexemes q (q.quote s ++ r).toList =
          .literal (some s) :: Place.outside.lexemes q r.toList ∧
        ∀ s' r', q.quote s ++ r = q.quote s' ++ r' ↔ s = s' ∧ r = r' := by
  constructor
  · intro q hq
    exact visible_quote (by simpa using hq) s
  · intro q
    refine ⟨⟨_, toList_quote q s, unescape_flatMap_escape q s.toList⟩, fun r => ?_⟩
    exact ⟨lexemes_quote_append q s r, fun s' r' => quote_append_inj q⟩

/-- A bell, before a digit that its escape does not take. -/
theorem quote_exact_bell :
    double ∈ [double, braced] ∧ ∃ content,
      (double.quote "\x07" ++ "7").toList = double.mark :: content ++ [double.mark, '7'] ∧
        double.unescape content = some ['\x07'] ∧ ∀ c ∈ content, Visible c := by
  have hmem : double ∈ [double, braced] := by decide
  have hvisible := (quote_exact "\x07").1 double hmem
  obtain ⟨content, hcontent, hunescape⟩ := ((quote_exact "\x07").2 double).1
  refine ⟨hmem, content, ?_, hunescape, fun c hc => hvisible c ?_⟩
  · rw [String.toList_append, hcontent]
    simp
  · rw [hcontent]
    simp [hc]

example : double.quote "a\"\\\u0085b" = "\"a\\\"\\\\\\u0085b\"" := by decide

end CurlCode.Quoting

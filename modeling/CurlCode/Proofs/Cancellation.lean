import CurlCode.Proofs.Outline

/-!
Programs that are equal from some point on: what stands there has to begin with the same
text, and what delimits itself is the same in both and can be cancelled.
-/
namespace CurlCode

/-- Neither list is a prefix of the other. -/
def Clash (s t : List α) : Prop := ¬ s <+: t ∧ ¬ t <+: s

instance [DecidableEq α] (s t : List α) : Decidable (Clash s t) :=
  inferInstanceAs (Decidable (¬ s <+: t ∧ ¬ t <+: s))

/-- A program that begins with this text, where `none` stands for a literal. -/
def Begins (u : List (Option Char)) (ls : List Lexeme) : Prop := u <+: gaps ls

instance (u : List (Option Char)) (ls : List Lexeme) : Decidable (Begins u ls) :=
  inferInstanceAs (Decidable (u <+: gaps ls))

/-- The text without a literal. -/
def front (t : String) : List (Option Char) := t.toList.map some

theorem Begins.append {u : List (Option Char)} {ls : List Lexeme} (h : Begins u ls)
    (k : List Lexeme) : Begins u (ls ++ k) := by
  rw [Begins, gaps_append]
  exact List.IsPrefix.trans h (List.prefix_append _ _)

theorem Begins.not_of_clash {u v : List (Option Char)} {ls : List Lexeme} (h : Begins u ls)
    (hc : Clash u v) : ¬ Begins v ls := by
  intro hv
  rcases List.prefix_or_prefix_of_prefix h hv with huv | hvu
  · exact hc.1 huv
  · exact hc.2 hvu

/-- Texts that tell the members of a finite type apart, whatever follows. -/
def Distinct (tag : κ → List (Option Char)) : Prop := ∀ a b, a = b ∨ Clash (tag a) (tag b)

theorem distinct_of_all {tag : κ → List (Option Char)} {all : List κ} (hall : ∀ a, a ∈ all)
    (h : ∀ a ∈ all, ∀ b ∈ all, a = b ∨ Clash (tag a) (tag b)) : Distinct tag :=
  fun a b => h a (hall a) b (hall b)

theorem eq_of_begins {tag : κ → List (Option Char)} (h : Distinct tag) {a b : κ}
    {ls : List Lexeme} (ha : Begins (tag a) ls) (hb : Begins (tag b) ls) : a = b := by
  rcases h a b with hab | hab
  · exact hab
  · exact absurd hb (ha.not_of_clash hab)

theorem begins_text {q : Quoting} {t : String} (ht : q.mark ∉ t.toList)
    {u : List (Option Char)} (hu : u <+: front t) :
    Begins u (Fragment.lexemes q (.text t)) := by
  rw [Begins, Fragment.lexemes_text ht, gaps_plain]
  exact hu

theorem begins_text_append {q : Quoting} {t : String} (ht : q.mark ∉ t.toList)
    {u : List (Option Char)} {ls : List Lexeme} (h : Begins u ls) :
    Begins (front t ++ u) (Fragment.lexemes q (.text t) ++ ls) := by
  rw [Begins, gaps_append, Fragment.lexemes_text ht, gaps_plain]
  exact (List.prefix_append_right_inj _).2 h

theorem begins_literal (t : Option String) (ls : List Lexeme) : Begins [none] (.literal t :: ls) :=
  ⟨gaps ls, rfl⟩

theorem begins_literal_cons (t : Option String) {u : List (Option Char)} {ls : List Lexeme}
    (h : Begins u ls) : Begins (none :: u) (.literal t :: ls) := by
  rw [Begins, gaps_literal]
  exact List.cons_prefix_cons.2 ⟨rfl, h⟩

/-! ### Parts that delimit themselves -/

/-- The part splits off the front of any program. -/
def SelfDelimiting (part : α → List Lexeme) : Prop :=
  ∀ a b k k', part a ++ k = part b ++ k' → a = b ∧ k = k'

theorem SelfDelimiting.flatMap {part : α → List Lexeme} (h : SelfDelimiting part)
    {u : List (Option Char)} (hpart : ∀ a, Begins u (part a)) {as bs : List α}
    {k k' : List Lexeme} (hk : ¬ Begins u k) (hk' : ¬ Begins u k')
    (heq : as.flatMap part ++ k = bs.flatMap part ++ k') : as = bs ∧ k = k' := by
  induction as generalizing bs with
  | nil =>
    cases bs with
    | nil => exact ⟨rfl, heq⟩
    | cons b bs =>
      rw [List.flatMap_nil, List.nil_append, List.flatMap_cons, List.append_assoc] at heq
      rw [heq] at hk
      exact absurd ((hpart b).append _) hk
  | cons a as ih =>
    cases bs with
    | nil =>
      rw [List.flatMap_nil, List.nil_append, List.flatMap_cons, List.append_assoc] at heq
      rw [← heq] at hk'
      exact absurd ((hpart a).append _) hk'
    | cons b bs =>
      rw [List.flatMap_cons, List.flatMap_cons, List.append_assoc, List.append_assoc] at heq
      obtain ⟨rfl, htail⟩ := h a b _ _ heq
      obtain ⟨rfl, hrest⟩ := ih htail
      exact ⟨rfl, hrest⟩

namespace Source

theorem lexemes_forEach (q : Quoting) (items : List α) (part : α → Source) :
    lexemes q (forEach items part) = items.flatMap fun a => lexemes q (part a) := by
  induction items with
  | nil => rfl
  | cons a items ih => simp [ih]

/-- One literal between texts. -/
theorem selfDelimiting_single {q : Quoting} {f : α → String} (h : ∀ a b, f a = f b → a = b)
    (t₁ t₂ : String) :
    SelfDelimiting fun a => lexemes q [.text t₁, .literal (f a), .text t₂] := by
  intro a b k k' heq
  simp only [lexemes_cons, lexemes_nil, Fragment.lexemes_literal, List.append_assoc,
    List.cons_append, List.nil_append, List.append_cancel_left_eq, List.cons.injEq,
    Lexeme.literal.injEq, Option.some.injEq] at heq
  exact ⟨h a b heq.1, heq.2⟩

/-- Two literals between texts. -/
theorem selfDelimiting_pair {q : Quoting} {f g : α → String}
    (h : ∀ a b, f a = f b → g a = g b → a = b) (t₁ t₂ t₃ : String) :
    SelfDelimiting fun a =>
      lexemes q [.text t₁, .literal (f a), .text t₂, .literal (g a), .text t₃] := by
  intro a b k k' heq
  simp only [lexemes_cons, lexemes_nil, Fragment.lexemes_literal, List.append_assoc,
    List.cons_append, List.nil_append, List.append_cancel_left_eq, List.cons.injEq,
    Lexeme.literal.injEq, Option.some.injEq] at heq
  exact ⟨h a b heq.1 heq.2.1, heq.2.2⟩

variable {q : Quoting} {t : String} {rest : α → Source} {as bs : List α} {k k' : List Lexeme}

/-- A part that opens with a text, in front of anything. -/
theorem begins_cons_text (ht : q.mark ∉ t.toList) {u : List (Option Char)} (hu : u <+: front t)
    (s : Source) (k : List Lexeme) : Begins u (lexemes q (.text t :: s) ++ k) :=
  ((begins_text ht hu).append _).append k

/-- A list whose items all begin with the same text. -/
theorem forEach_cancel (h : SelfDelimiting fun a => lexemes q (.text t :: rest a))
    (ht : q.mark ∉ t.toList) (hk : ¬ Begins (front t) k) (hk' : ¬ Begins (front t) k')
    (heq : lexemes q (forEach as fun a => .text t :: rest a) ++ k =
      lexemes q (forEach bs fun a => .text t :: rest a) ++ k') : as = bs ∧ k = k' := by
  rw [lexemes_forEach, lexemes_forEach] at heq
  have hpart (a : α) : Begins (front t) (lexemes q (.text t :: rest a)) :=
    (begins_text ht (List.prefix_refl _)).append _
  exact h.flatMap hpart hk hk' heq

/-- A list with a text after it. -/
theorem forEach_text_cancel {closing : String}
    (h : SelfDelimiting fun a => lexemes q (.text t :: rest a)) (ht : q.mark ∉ t.toList)
    (hclosing : q.mark ∉ closing.toList) (hclash : Clash (front closing) (front t))
    (heq : lexemes q (forEach as fun a => .text t :: rest a) ++
        (Fragment.lexemes q (.text closing) ++ k) =
      lexemes q (forEach bs fun a => .text t :: rest a) ++
        (Fragment.lexemes q (.text closing) ++ k')) : as = bs ∧ k = k' := by
  have hclosed (k : List Lexeme) :
      ¬ Begins (front t) (Fragment.lexemes q (.text closing) ++ k) :=
    ((begins_text hclosing (List.prefix_refl _)).append k).not_of_clash hclash
  obtain ⟨hitems, hrest⟩ := forEach_cancel h ht (hclosed k) (hclosed k') heq
  exact ⟨hitems, List.append_cancel_left hrest⟩

/-- A list between texts. -/
theorem forEach_between {before : Source} {closing : String}
    (h : SelfDelimiting fun a => lexemes q (.text t :: rest a)) (ht : q.mark ∉ t.toList)
    (hclosing : q.mark ∉ closing.toList) (hclash : Clash (front closing) (front t))
    (heq : lexemes q (.concat [before, .forEach as fun a => .text t :: rest a,
        [.text closing]]) ++ k =
      lexemes q (.concat [before, .forEach bs fun a => .text t :: rest a,
        [.text closing]]) ++ k') : as = bs ∧ k = k' := by
  simp only [concat_cons, concat_nil, lexemes_append, lexemes_cons, lexemes_nil,
    List.append_assoc, List.append_nil, List.append_cancel_left_eq] at heq
  exact forEach_text_cancel h ht hclosing hclash heq

/-- A list between texts that are left out with it when it is empty. -/
theorem optional_cancel {opening closing : String}
    (h : SelfDelimiting fun a => lexemes q (.text t :: rest a)) (ht : q.mark ∉ t.toList)
    (hopening : q.mark ∉ opening.toList) (hclosing : q.mark ∉ closing.toList)
    (hclash : Clash (front closing) (front t)) (hk : ¬ Begins (front opening) k)
    (hk' : ¬ Begins (front opening) k')
    (heq : lexemes q (if as.isEmpty then [] else .concat [[.text opening],
        .forEach as fun a => .text t :: rest a, [.text closing]]) ++ k =
      lexemes q (if bs.isEmpty then [] else .concat [[.text opening],
        .forEach bs fun a => .text t :: rest a, [.text closing]]) ++ k') :
    as = bs ∧ k = k' := by
  have hopen := begins_text hopening (List.prefix_refl (front opening))
  cases as with
  | nil =>
    cases bs with
    | nil => exact ⟨rfl, heq⟩
    | cons b bs =>
      rw [if_pos List.isEmpty_nil, if_neg (by simp), lexemes_nil, List.nil_append, concat_cons,
        lexemes_append, lexemes_cons, List.append_assoc, List.append_assoc] at heq
      rw [heq] at hk
      exact absurd (hopen.append _) hk
  | cons a as =>
    cases bs with
    | nil =>
      rw [if_neg (by simp), if_pos List.isEmpty_nil, lexemes_nil, List.nil_append, concat_cons,
        lexemes_append, lexemes_cons, List.append_assoc, List.append_assoc] at heq
      rw [← heq] at hk'
      exact absurd (hopen.append _) hk'
    | cons b bs =>
      rw [if_neg (by simp), if_neg (by simp)] at heq
      exact forEach_between h ht hclosing hclash heq

end Source

end CurlCode

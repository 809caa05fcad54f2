import CurlCode.Proofs.Literal
import CurlCode.Source

/-!
A program read from left to right by the rule of its string literals: a mark outside
opens a literal, inside a backslash protects the next character, and the next mark that
is not protected closes it. What a source renders to is read as its fragments, one after
the other (`lexemes_render`).
-/
namespace CurlCode

inductive Lexeme where
  /-- A character outside the literals. -/
  | plain (c : Char)
  /-- A literal with its text; `none` if an escape in it is broken. -/
  | literal (text : Option String)
  deriving DecidableEq, Repr

/-- Where the reading stands, with what has been read of a literal, as it is written. -/
inductive Place where
  | outside
  | inside (content : List Char)
  /-- Inside, after a backslash. -/
  | guarded (content : List Char)
  deriving DecidableEq, Repr

namespace Place

variable (q : Quoting)

def step : Place → Char → Place
  | .outside, c => if c = q.mark then .inside [] else .outside
  | .inside w, c =>
    if c = q.mark then .outside else if c = '\\' then .guarded w else .inside (w ++ [c])
  | .guarded w, c => .inside (w ++ ['\\', c])

/-- What one more character completes. -/
def completes : Place → Char → List Lexeme
  | .outside, c => if c = q.mark then [] else [.plain c]
  | .inside w, c => if c = q.mark then [.literal ((q.unescape w).map String.ofList)] else []
  | .guarded _, _ => []

def after (p : Place) (s : List Char) : Place := s.foldl (step q) p

def lexemes : Place → List Char → List Lexeme
  | _, [] => []
  | p, c :: s => p.completes q c ++ lexemes (p.step q c) s

@[simp] theorem after_nil (p : Place) : p.after q [] = p := rfl
@[simp] theorem after_cons (p : Place) (c : Char) (s : List Char) :
    p.after q (c :: s) = (p.step q c).after q s := rfl
theorem after_append (p : Place) (s t : List Char) :
    p.after q (s ++ t) = (p.after q s).after q t := List.foldl_append

@[simp] theorem lexemes_nil (p : Place) : p.lexemes q [] = [] := rfl
@[simp] theorem lexemes_cons (p : Place) (c : Char) (s : List Char) :
    p.lexemes q (c :: s) = p.completes q c ++ (p.step q c).lexemes q s := rfl
theorem lexemes_append (p : Place) (s t : List Char) :
    p.lexemes q (s ++ t) = p.lexemes q s ++ (p.after q s).lexemes q t := by
  induction s generalizing p with
  | nil => rfl
  | cons c s ih => simp [ih]

end Place

/-! ### Inside a literal -/

/-- Text that stays inside a literal wherever it starts there. -/
def Contained (q : Quoting) (s : List Char) : Prop :=
  ∀ w, (Place.inside w).after q s = .inside (w ++ s) ∧ (Place.inside w).lexemes q s = []

theorem Contained.append {q : Quoting} {s t : List Char} (h : Contained q s)
    (k : Contained q t) : Contained q (s ++ t) := by
  intro w
  rw [Place.after_append, Place.lexemes_append, (h w).1, (h w).2, (k _).1, (k _).2]
  simp

theorem contained_plain {q : Quoting} {s : List Char}
    (h : ∀ c ∈ s, c ≠ q.mark ∧ c ≠ '\\') : Contained q s := by
  induction s with
  | nil => intro w; simp
  | cons c s ih =>
    have hc : Contained q [c] := by
      intro w
      have := h c (by simp)
      simp [Place.step, Place.completes, this.1, this.2]
    exact hc.append (ih fun d hd => h d (by simp [hd]))

theorem contained_guarded {q : Quoting} (c : Char) : Contained q ['\\', c] := by
  intro w
  have hmark : '\\' ≠ q.mark := by cases q <;> decide
  simp [Place.step, Place.completes, hmark]

/-- Characters that mean nothing inside a literal. -/
def isOrdinary (c : Char) : Bool := c != '"' && c != '\\'

theorem ordinary_of_all {s : List Char} (h : s.all isOrdinary) :
    ∀ c ∈ s, c ≠ '"' ∧ c ≠ '\\' := by
  intro c hc
  simpa [isOrdinary] using List.all_eq_true.1 h c hc

theorem hexPadded_ordinary : ∀ n < 0xA0, (Text.hexPadded 4 n).all isOrdinary := by
  decide +kernel

theorem hex_ordinary : ∀ n < 0xA0, (Text.hex n).all isOrdinary := by
  decide +kernel

theorem contained_escapeDouble {q : Quoting} (hq : q.mark = '"') (control : Nat → List Char)
    (hcontrol : ∀ n < 0xA0, Contained q (control n)) (c : Char) :
    Contained q (Quoting.escapeDouble control c) := by
  rw [Quoting.escapeDouble]
  split_ifs with h₁ h₂ h₃ h₄ h₅ h₆
  · exact contained_guarded _
  · exact contained_guarded _
  · exact contained_guarded _
  · exact contained_guarded _
  · exact contained_guarded _
  · exact hcontrol _ (Quoting.toNat_lt_of_isControl h₆)
  · exact contained_plain (by simp [hq, h₁, h₂])

theorem contained_fourDigits {q : Quoting} (hq : q.mark = '"') {n : Nat} (hn : n < 0xA0) :
    Contained q ('\\' :: 'u' :: Text.hexPadded 4 n) :=
  (contained_guarded 'u').append
    (contained_plain (by rw [hq]; exact ordinary_of_all (hexPadded_ordinary n hn)))

theorem contained_escape (q : Quoting) (c : Char) : Contained q (q.escape c) := by
  cases q with
  | double =>
    exact contained_escapeDouble rfl (fun n => '\\' :: 'u' :: Text.hexPadded 4 n)
      (fun n hn => contained_fourDigits rfl hn) c
  | braced =>
    refine contained_escapeDouble rfl
      (fun n => '\\' :: 'u' :: '\x7b' :: Text.hex n ++ ['\x7d']) ?_ c
    intro n hn
    refine ((contained_guarded 'u').append (contained_plain (s := '\x7b' :: Text.hex n) ?_)).append
      (contained_plain (by simp))
    intro d hd
    rcases List.mem_cons.1 hd with rfl | hd
    · decide
    · exact ordinary_of_all (hex_ordinary n hn) d hd
  | single =>
    rw [Quoting.escape, Quoting.escapeSingle]
    split_ifs with h
    · exact contained_guarded c
    · simp only [not_or] at h
      exact contained_plain (by simp [h.1, h.2])
  | json =>
    rw [Quoting.escape, Quoting.escapeJson]
    split_ifs with h₁ h₂
    · exact contained_guarded _
    · exact contained_guarded _
    · exact contained_guarded _
    · exact contained_guarded _
    · exact contained_guarded _
    · exact contained_guarded _
    · exact contained_guarded _
    · exact contained_fourDigits rfl (by omega)
    · exact contained_plain (by simp [h₁, h₂])

theorem contained_flatMap_escape (q : Quoting) (s : List Char) :
    Contained q (s.flatMap q.escape) := by
  induction s with
  | nil => exact contained_plain (by simp)
  | cons c s ih => exact (contained_escape q c).append ih

/-! ### Sources -/

theorem lexemes_literal (q : Quoting) (s : List Char) :
    Place.outside.after q (q.literal s) = .outside ∧
      Place.outside.lexemes q (q.literal s) = [.literal (some (String.ofList s))] := by
  obtain ⟨hafter, hlexemes⟩ := contained_flatMap_escape q s []
  rw [List.nil_append] at hafter
  constructor
  · simp [Quoting.literal, Place.step, Place.after_append, hafter]
  · simp [Quoting.literal, Place.step, Place.completes, Place.lexemes_append, hafter, hlexemes,
      Quoting.unescape_flatMap_escape]

/-- The characters of a text that holds no literal. -/
def plain (t : String) : List Lexeme := t.toList.map .plain

theorem lexemes_of_not_mem {q : Quoting} {s : List Char} (h : q.mark ∉ s) :
    Place.outside.after q s = .outside ∧ Place.outside.lexemes q s = s.map .plain := by
  induction s with
  | nil => simp
  | cons c s ih =>
    simp only [List.mem_cons, not_or] at h
    simp [Place.step, Place.completes, Ne.symm h.1, ih h.2]

namespace Fragment

def lexemes (q : Quoting) : Fragment → List Lexeme
  | .text t => Place.outside.lexemes q t.toList
  | .literal s => [.literal (some s)]

/-- A text has to close the literals that it opens. -/
def Closed (q : Quoting) : Fragment → Prop
  | .text t => Place.outside.after q t.toList = .outside
  | .literal _ => True

@[simp] theorem lexemes_literal (q : Quoting) (s : String) :
    lexemes q (.literal s) = [.literal (some s)] := rfl
@[simp] theorem closed_literal (q : Quoting) (s : String) : Closed q (.literal s) := trivial

theorem lexemes_text {q : Quoting} {t : String} (h : q.mark ∉ t.toList) :
    lexemes q (.text t) = plain t := (lexemes_of_not_mem h).2

theorem closed_text {q : Quoting} {t : String} (h : q.mark ∉ t.toList) : Closed q (.text t) :=
  (lexemes_of_not_mem h).1

instance (q : Quoting) : (f : Fragment) → Decidable (f.Closed q)
  | .text t => inferInstanceAs (Decidable (Place.outside.after q t.toList = .outside))
  | .literal _ => .isTrue trivial

end Fragment

namespace Source

def lexemes (q : Quoting) (s : Source) : List Lexeme := s.flatMap (Fragment.lexemes q)

def Closed (q : Quoting) (s : Source) : Prop := ∀ f ∈ s, f.Closed q

@[simp] theorem lexemes_nil (q : Quoting) : lexemes q [] = [] := rfl
@[simp] theorem lexemes_cons (q : Quoting) (f : Fragment) (s : Source) :
    lexemes q (f :: s) = f.lexemes q ++ lexemes q s := rfl
@[simp] theorem lexemes_append (q : Quoting) (s t : Source) :
    lexemes q (s ++ t) = lexemes q s ++ lexemes q t := List.flatMap_append

@[simp] theorem closed_nil (q : Quoting) : Closed q [] := by simp [Closed]
@[simp] theorem closed_cons (q : Quoting) (f : Fragment) (s : Source) :
    Closed q (f :: s) ↔ f.Closed q ∧ Closed q s := by simp [Closed]
@[simp] theorem closed_append (q : Quoting) (s t : Source) :
    Closed q (s ++ t) ↔ Closed q s ∧ Closed q t := by simp [Closed, or_imp, forall_and]

/-- What the strings hold never reaches the text between the literals, nor another literal. -/
theorem lexemes_render {q : Quoting} {s : Source} (h : Closed q s) :
    Place.outside.after q (render q s).toList = .outside ∧
      Place.outside.lexemes q (render q s).toList = lexemes q s := by
  induction s with
  | nil => simp
  | cons f s ih =>
    obtain ⟨hf, hs⟩ := (closed_cons q f s).1 h
    obtain ⟨hafter, hlexemes⟩ := ih hs
    have hfragment : Place.outside.after q (f.render q).toList = .outside ∧
        Place.outside.lexemes q (f.render q).toList = f.lexemes q := by
      cases f with
      | text t => exact ⟨hf, rfl⟩
      | literal t =>
        simpa [Fragment.render, Quoting.quote] using CurlCode.lexemes_literal q t.toList
    rw [render_cons, String.toList_append, Place.after_append, Place.lexemes_append,
      hfragment.1, hfragment.2, hafter, hlexemes]
    exact ⟨rfl, rfl⟩

end Source

end CurlCode

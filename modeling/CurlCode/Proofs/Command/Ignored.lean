import CurlCode.Proofs.Command.Meaning

/-!
The report of ignored tokens. It lists tokens of the command line in their order, each at a
place of its own, and behind a token that holds its value it has the value once more
(`Drawn`). Where no such token is ignored, the report is a part of the command line
(`ignored_tokens`).
-/
namespace CurlCode

/-- A report of tokens in their order, some of them followed by one string more. -/
inductive Drawn (extra : String → String → Prop) : List String → List String → Prop
  | nil : Drawn extra [] []
  | skip (token : String) {tokens report : List String} (more : Drawn extra tokens report) :
    Drawn extra (token :: tokens) report
  | keep (token : String) {tokens report : List String} (more : Drawn extra tokens report) :
    Drawn extra (token :: tokens) (token :: report)
  | double {token value : String} {tokens report : List String} (twice : extra token value)
    (more : Drawn extra tokens report) : Drawn extra (token :: tokens) (token :: value :: report)

namespace Drawn

variable {extra extra' : String → String → Prop} {tokens report : List String}

theorem mono (h : Drawn extra tokens report)
    (hextra : ∀ token value, extra token value → extra' token value) :
    Drawn extra' tokens report := by
  induction h with
  | nil => exact .nil
  | skip token _ ih => exact ih.skip token
  | keep token _ ih => exact ih.keep token
  | double twice _ ih => exact .double (hextra _ _ twice) ih

theorem sublist (h : Drawn extra tokens report) (hnone : ∀ token value, ¬ extra token value) :
    report.Sublist tokens := by
  induction h with
  | nil => exact .refl _
  | skip token _ ih => exact ih.cons token
  | keep token _ ih => exact ih.cons_cons token
  | double twice _ _ => exact absurd twice (hnone _ _)

end Drawn

/-- A flag with this value says nothing about the request. -/
def Flag.Idle (flag : Flag) (value : String) : Prop :=
  flag = .skipped ∨ (flag = .header ∧ ':' ∉ value.toList)

instance (flag : Flag) (value : String) : Decidable (flag.Idle value) :=
  inferInstanceAs (Decidable (_ ∨ _))

/-- The token holds this value and is a flag that says nothing with it. -/
def HoldsIdle (os : List Occurrence) (token value : String) : Prop :=
  ∃ flag, .valued flag token value ∈ os ∧ flag.Idle value ∧ Flag.Holds token flag value

theorem HoldsIdle.cons {os : List Occurrence} {token value : String}
    (h : HoldsIdle os token value) (o : Occurrence) : HoldsIdle (o :: os) token value := by
  obtain ⟨flag, hmem, hflag⟩ := h
  exact ⟨flag, List.mem_cons_of_mem o hmem, hflag⟩

namespace Occurrence

theorem leftOut_valued (url : Option String) (flag : Flag) (token value : String) :
    leftOut url (.valued flag token value) = if flag.Idle value then [token, value] else [] := by
  cases flag with
  | header => by_cases hcolon : ':' ∈ value.toList <;> simp [leftOut, Flag.Idle, hcolon]
  | _ => simp [leftOut, Flag.Idle]

/-- What occurrences leave out, one after the other, given the URL before them. -/
def allLeftOut (url : Option String) : List Occurrence → List String
  | [] => []
  | o :: os => o.leftOut url ++ allLeftOut (o.urlAfter url) os

end Occurrence

theorem Walk.ignored_foldl (os : List Occurrence) (w : Walk) :
    (os.foldl next w).ignored.toList = w.ignored.toList ++ Occurrence.allLeftOut w.url os := by
  induction os generalizing w with
  | nil => simp [Occurrence.allLeftOut]
  | cons o os ih => simp [ih, next, Occurrence.allLeftOut]

/-- Of one flag with its value nothing is reported, or both. -/
theorem Drawn.valued {extra : String → String → Prop} {tokens report : List String}
    (h : Drawn extra tokens report) (url : Option String) (flag : Flag) (token value : String) :
    Drawn extra (token :: value :: tokens)
      ((Occurrence.valued flag token value).leftOut url ++ report) := by
  rw [Occurrence.leftOut_valued]
  split
  · exact (h.keep value).keep token
  · exact (h.skip value).skip token

theorem Cut.drawn {tokens : List String} {os : List Occurrence} (h : Cut tokens os)
    (url : Option String) : Drawn (HoldsIdle os) tokens (Occurrence.allLeftOut url os) := by
  induction h generalizing url with
  | nil => exact .nil
  | @bare token _ _ _ _ ih =>
    have hmore := (ih ((Occurrence.bare token).urlAfter url)).mono fun _ _ h => h.cons (.bare token)
    rw [Occurrence.allLeftOut, Occurrence.leftOut]
    split
    · exact hmore.skip token
    · exact hmore.keep token
  | @switch token flag _ _ _ _ _ ih => exact ((ih url).mono fun _ _ h => h.cons _).skip token
  | @attached token value flag rest os holds _ ih =>
    rw [Occurrence.allLeftOut, Occurrence.leftOut_valued]
    have hmore := (ih ((Occurrence.valued flag token value).urlAfter url)).mono
      fun _ _ h => h.cons (.valued flag token value)
    split
    · next hidle => exact .double ⟨flag, List.mem_cons_self, hidle, holds⟩ hmore
    · exact hmore.skip token
  | @separate token value flag _ _ _ _ _ ih =>
    rw [Occurrence.allLeftOut]
    exact ((ih _).mono fun _ _ h => h.cons _).valued url flag token value
  | @dangling token _ _ _ => exact Drawn.nil.keep token
  | @unknown token _ _ _ _ _ _ ih => exact ((ih url).mono fun _ _ h => h.cons _).keep token

namespace Command

/-- What is ignored is what the occurrences leave out. These are tokens of the command line, each
at its own place, but for the values of ignored flags that hold them. -/
theorem ignored_tokens {limits : Limits} {tokens : List String} {os : List Occurrence}
    {c : Command} (hcut : Cut tokens.tail os) (h : ofTokens limits tokens = .ok c) :
    c.ignored = Occurrence.allLeftOut none os ∧
      Drawn (HoldsIdle os) tokens.tail c.ignored ∧
      ((∀ token value, ¬ HoldsIdle os token value) → c.ignored.Sublist tokens.tail) := by
  obtain ⟨url, -, rfl⟩ := command_of_cut hcut h
  have hignored : (Walk.after os).ignored.toList = Occurrence.allLeftOut none os :=
    Walk.ignored_foldl os .start
  have hdrawn := hcut.drawn none
  rw [← hignored] at hdrawn
  exact ⟨hignored, hdrawn, hdrawn.sublist⟩

/-- Bare tokens, unknown flags, a header line without a colon, an unsupported flag whose value
looks like another one with its value, and a flag without any. -/
theorem ignored_tokens_separate :
    let tokens := ["curl", "-sSL", "-u", "-ume", "a", "b", "-H", "x", "", "-dq", "-X"]
    let os : List Occurrence := [.stray "-sSL", .valued .skipped "-u" "-ume", .bare "a", .bare "b",
      .valued .header "-H" "x", .bare "", .valued .data "-dq" "q", .stray "-X"]
    ofTokens {} tokens = .ok ⟨⟨"POST", "a", [], some "q"⟩,
        ["-sSL", "-u", "-ume", "b", "-H", "x", "", "-X"]⟩ ∧
      Cut tokens.tail os ∧ (∀ token value, ¬ HoldsIdle os token value) ∧
      ["-sSL", "-u", "-ume", "b", "-H", "x", "", "-X"].Sublist tokens.tail := by
  intro tokens os
  have hcut : Cut tokens.tail os := cut_iff.2 (by decide +kernel)
  have hc : ofTokens {} tokens = .ok ⟨⟨"POST", "a", [], some "q"⟩,
      ["-sSL", "-u", "-ume", "b", "-H", "x", "", "-X"]⟩ := by rfl
  have hnone : ∀ token value, ¬ HoldsIdle os token value := by
    rintro token value ⟨flag, hmem, hidle, hholds⟩
    have hattached := Flag.attached?_eq_some_iff.2 hholds
    have hnot : Flag.attached? "-u" = none ∧ Flag.attached? "-H" = none := by decide +kernel
    simp only [os, List.mem_cons, List.not_mem_nil, Occurrence.valued.injEq, reduceCtorEq,
      false_or, or_false] at hmem
    rcases hmem with ⟨-, rfl, -⟩ | ⟨-, rfl, -⟩ | ⟨rfl, -, -⟩
    · simp [hnot.1] at hattached
    · simp [hnot.2] at hattached
    · simp [Flag.Idle] at hidle
  exact ⟨hc, hcut, hnone, (ignored_tokens hcut hc).2.2 hnone⟩

/-- The value of this flag is reported twice, in its token and behind it. -/
theorem ignored_attached :
    ∃ c, ofTokens {} ["curl", "-ume:pw", "http://x.test/"] = .ok c ∧
      c.ignored = ["-ume:pw", "me:pw"] ∧ ¬ c.ignored.Sublist ["-ume:pw", "http://x.test/"] :=
  ⟨⟨⟨"GET", "http://x.test/", [], none⟩, ["-ume:pw", "me:pw"]⟩, rfl, rfl, by decide⟩

end Command

end CurlCode

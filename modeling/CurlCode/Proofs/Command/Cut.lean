import CurlCode.Command.Occurrence
import Mathlib.Tactic.SplitIfs

/-!
The cut of arguments into occurrences, as rules. Every list of arguments has exactly one
cut, the one that `Occurrence.ofTokens` finds (`cut_iff`).
-/
namespace CurlCode

namespace Flag

/-- The token is a two-character flag together with its value. -/
def Holds (token : String) (flag : Flag) (value : String) : Prop :=
  ∃ letter : Char, (String.ofList ['-', letter], flag) ∈ table ∧ flag.takesValue ∧ value ≠ "" ∧
    token = String.ofList ['-', letter] ++ value

theorem mem_table_of_ofSpelling? {token : String} {flag : Flag}
    (h : ofSpelling? token = some flag) : (token, flag) ∈ table := by
  obtain ⟨before, after, htable, -⟩ := List.lookup_eq_some_iff.1 h
  simp [htable]

/-- No spelling is listed twice. -/
theorem ofSpelling?_of_mem_table : ∀ p ∈ table, ofSpelling? p.1 = some p.2 := by
  decide +kernel

theorem ofSpelling?_eq_some_iff {token : String} {flag : Flag} :
    ofSpelling? token = some flag ↔ (token, flag) ∈ table :=
  ⟨mem_table_of_ofSpelling?, ofSpelling?_of_mem_table (token, flag)⟩

theorem ofSpelling?_eq_none_iff {token : String} :
    ofSpelling? token = none ↔ ∀ flag, (token, flag) ∉ table := by
  rw [Option.eq_none_iff_forall_ne_some]
  simp only [ne_eq, ofSpelling?_eq_some_iff]

theorem dashed_of_mem_table : ∀ p ∈ table, p.1.toList.head? = some '-' := by
  decide +kernel

theorem short_or_long_of_mem_table :
    ∀ p ∈ table, p.1.toList.length = 2 ∨ p.1.toList.take 2 = ['-', '-'] := by
  decide +kernel

/-- A listed spelling holds no value. -/
theorem attached?_of_mem_table (p : String × Flag) (h : p ∈ table) : attached? p.1 = none := by
  have hdashes : ofSpelling? (String.ofList ['-', '-']) = none := by decide +kernel
  rw [attached?]
  split
  · next letter c rest htoken =>
    rcases short_or_long_of_mem_table p h with hshort | hlong
    · simp [htoken] at hshort
    · obtain rfl : letter = '-' := by simpa [htoken] using hlong
      rw [hdashes]
  · rfl

theorem attached?_eq_some_iff {token : String} {flag : Flag} {value : String} :
    attached? token = some (flag, value) ↔ Holds token flag value := by
  constructor
  · intro h
    rw [attached?] at h
    split at h
    · next letter c rest htoken =>
      split at h
      · next found hfound =>
        simp only [Option.ite_none_right_eq_some, Option.some.injEq, Prod.mk.injEq] at h
        obtain ⟨htakes, rfl, rfl⟩ := h
        refine ⟨letter, ofSpelling?_eq_some_iff.1 hfound, htakes, by simp [← String.toList_inj], ?_⟩
        rw [← String.toList_inj]
        simp [htoken]
      · simp at h
    · simp at h
  · rintro ⟨letter, hlisted, htakes, hne, rfl⟩
    have hvalue : value.toList ≠ [] := by simpa using hne
    obtain ⟨c, rest, hlist⟩ := List.exists_cons_of_ne_nil hvalue
    have hspelling := ofSpelling?_eq_some_iff.2 hlisted
    have hback : String.ofList (c :: rest) = value := by rw [← hlist, String.ofList_toList]
    have htoken : (String.ofList ['-', letter] ++ value).toList = '-' :: letter :: c :: rest := by
      simp [hlist]
    rw [attached?, htoken]
    simp only [hspelling, htakes, if_true, hback]

theorem dashed_of_holds {token : String} {flag : Flag} {value : String}
    (h : Holds token flag value) : token.toList.head? = some '-' := by
  obtain ⟨letter, -, -, -, rfl⟩ := h
  simp

end Flag

/-- What the kind of a token says about it. -/
def TokenKind.Describes (token : String) : TokenKind → Prop
  | .bare => token.toList.head? ≠ some '-'
  | .switch flag => (token, flag) ∈ Flag.table ∧ flag.takesValue = false
  | .attached flag value => Flag.Holds token flag value
  | .awaiting flag => (token, flag) ∈ Flag.table ∧ flag.takesValue
  | .unknown => token.toList.head? = some '-' ∧ (∀ flag, (token, flag) ∉ Flag.table) ∧
      ∀ flag value, ¬ Flag.Holds token flag value

theorem TokenKind.ofToken_of_mem_table {token : String} {flag : Flag}
    (h : (token, flag) ∈ Flag.table) :
    ofToken token = if flag.takesValue then .awaiting flag else .switch flag := by
  have hdash : token.toList.head? = some '-' := Flag.dashed_of_mem_table _ h
  have hattached : Flag.attached? token = none := Flag.attached?_of_mem_table _ h
  have hspelling := Flag.ofSpelling?_eq_some_iff.2 h
  simp [ofToken, hdash, hattached, hspelling]

theorem TokenKind.ofToken_eq_iff {token : String} {kind : TokenKind} :
    ofToken token = kind ↔ kind.Describes token := by
  constructor
  · rintro rfl
    rw [ofToken]
    split_ifs with hbare
    · exact hbare
    · have hdash : token.toList.head? = some '-' := Decidable.not_not.1 hbare
      split
      · next flag value hattached => exact Flag.attached?_eq_some_iff.1 hattached
      · next hattached =>
        split
        · next hspelling =>
          refine ⟨hdash, Flag.ofSpelling?_eq_none_iff.1 hspelling, ?_⟩
          intro flag value hholds
          simp [Flag.attached?_eq_some_iff.2 hholds] at hattached
        · next flag hspelling =>
          have hlisted := Flag.ofSpelling?_eq_some_iff.1 hspelling
          split_ifs with htakes
          · exact ⟨hlisted, htakes⟩
          · exact ⟨hlisted, by simpa using htakes⟩
  · intro h
    cases kind with
    | bare => exact if_pos h
    | switch flag => simp [ofToken_of_mem_table h.1, h.2]
    | awaiting flag => simp [ofToken_of_mem_table h.1, h.2]
    | attached flag value =>
      have hholds : Flag.Holds token flag value := h
      simp [ofToken, Flag.dashed_of_holds hholds, Flag.attached?_eq_some_iff.2 hholds]
    | unknown =>
      obtain ⟨hdash, hunlisted, hwhole⟩ := h
      have hattached : Flag.attached? token = none := by
        rw [Option.eq_none_iff_forall_ne_some]
        rintro ⟨flag, value⟩ hsome
        exact hwhole flag value (Flag.attached?_eq_some_iff.1 hsome)
      simp [ofToken, hdash, hattached, Flag.ofSpelling?_eq_none_iff.2 hunlisted]

/-- The rules by which arguments are cut, from left to right. -/
inductive Cut : List String → List Occurrence → Prop
  | nil : Cut [] []
  | bare {token : String} {rest : List String} {os : List Occurrence}
    (undashed : token.toList.head? ≠ some '-') (more : Cut rest os) :
    Cut (token :: rest) (.bare token :: os)
  | switch {token : String} {flag : Flag} {rest : List String} {os : List Occurrence}
    (listed : (token, flag) ∈ Flag.table) (alone : flag.takesValue = false)
    (more : Cut rest os) : Cut (token :: rest) (.switch flag :: os)
  | attached {token value : String} {flag : Flag} {rest : List String} {os : List Occurrence}
    (holds : Flag.Holds token flag value) (more : Cut rest os) :
    Cut (token :: rest) (.valued flag token value :: os)
  /-- The next token is the value, whatever it looks like. -/
  | separate {token value : String} {flag : Flag} {rest : List String} {os : List Occurrence}
    (listed : (token, flag) ∈ Flag.table) (takes : flag.takesValue) (more : Cut rest os) :
    Cut (token :: value :: rest) (.valued flag token value :: os)
  /-- There is no token left for the value. -/
  | dangling {token : String} {flag : Flag} (listed : (token, flag) ∈ Flag.table)
    (takes : flag.takesValue) : Cut [token] [.stray token]
  | unknown {token : String} {rest : List String} {os : List Occurrence}
    (dashed : token.toList.head? = some '-') (unlisted : ∀ flag, (token, flag) ∉ Flag.table)
    (whole : ∀ flag value, ¬ Flag.Holds token flag value) (more : Cut rest os) :
    Cut (token :: rest) (.stray token :: os)

/-- The occurrence that a token of this kind makes without the next one. -/
def TokenKind.alone? (token : String) : TokenKind → Option Occurrence
  | .bare => some (.bare token)
  | .switch flag => some (.switch flag)
  | .attached flag value => some (.valued flag token value)
  | .awaiting _ => none
  | .unknown => some (.stray token)

theorem ofTokens_alone {token : String} (kind : TokenKind) {o : Occurrence}
    (hkind : kind.Describes token) (ho : kind.alone? token = some o) (rest : List String) :
    Occurrence.ofTokens (token :: rest) = o :: Occurrence.ofTokens rest := by
  rw [← TokenKind.ofToken_eq_iff] at hkind
  cases rest <;> cases kind <;> simp_all [Occurrence.ofTokens, TokenKind.alone?]

theorem ofTokens_awaiting {token : String} {flag : Flag}
    (h : TokenKind.ofToken token = .awaiting flag) (value : String) (rest : List String) :
    Occurrence.ofTokens (token :: value :: rest) =
      .valued flag token value :: Occurrence.ofTokens rest := by
  rw [Occurrence.ofTokens, h]

theorem Cut.ofTokens {tokens : List String} {os : List Occurrence} (h : Cut tokens os) :
    Occurrence.ofTokens tokens = os := by
  induction h with
  | nil => rfl
  | bare undashed _ ih => rw [ofTokens_alone .bare undashed rfl, ih]
  | @switch token flag _ _ listed alone _ ih =>
    rw [ofTokens_alone (.switch flag) ⟨listed, alone⟩ rfl, ih]
  | @attached token value flag _ _ holds _ ih =>
    rw [ofTokens_alone (.attached flag value) holds rfl, ih]
  | @separate token value flag _ _ listed takes _ ih =>
    have hkind : TokenKind.ofToken token = .awaiting flag :=
      TokenKind.ofToken_eq_iff.2 ⟨listed, takes⟩
    rw [ofTokens_awaiting hkind, ih]
  | @dangling token flag listed takes =>
    have hkind : TokenKind.ofToken token = .awaiting flag :=
      TokenKind.ofToken_eq_iff.2 ⟨listed, takes⟩
    rw [Occurrence.ofTokens, hkind]
  | unknown dashed unlisted whole _ ih =>
    rw [ofTokens_alone .unknown ⟨dashed, unlisted, whole⟩ rfl, ih]

theorem cut_ofTokens : ∀ tokens : List String, Cut tokens (Occurrence.ofTokens tokens)
  | [] => .nil
  | token :: rest => by
    obtain ⟨kind, hkind⟩ : ∃ kind : TokenKind, kind.Describes token :=
      ⟨_, TokenKind.ofToken_eq_iff.1 rfl⟩
    cases kind with
    | bare =>
      rw [ofTokens_alone .bare hkind rfl]
      exact .bare hkind (cut_ofTokens rest)
    | switch flag =>
      rw [ofTokens_alone (.switch flag) hkind rfl]
      exact .switch hkind.1 hkind.2 (cut_ofTokens rest)
    | attached flag value =>
      rw [ofTokens_alone (.attached flag value) hkind rfl]
      exact .attached hkind (cut_ofTokens rest)
    | awaiting flag =>
      have htoken := TokenKind.ofToken_eq_iff.2 hkind
      cases rest with
      | nil =>
        rw [Occurrence.ofTokens, htoken]
        exact .dangling hkind.1 hkind.2
      | cons value rest =>
        rw [ofTokens_awaiting htoken]
        exact .separate hkind.1 hkind.2 (cut_ofTokens rest)
    | unknown =>
      rw [ofTokens_alone .unknown hkind rfl]
      exact .unknown hkind.1 hkind.2.1 hkind.2.2 (cut_ofTokens rest)

theorem cut_iff {tokens : List String} {os : List Occurrence} :
    Cut tokens os ↔ Occurrence.ofTokens tokens = os :=
  ⟨Cut.ofTokens, fun h => h ▸ cut_ofTokens tokens⟩

end CurlCode

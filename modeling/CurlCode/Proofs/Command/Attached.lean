import CurlCode.Proofs.Command.Meaning
import CurlCode.Proofs.Text.Percent

/-!
Values attached to short flags. A token is split after two ASCII characters, or not at all, and
counted in bytes the rule is the same (`Flag.attachedInBytes?_eq`). The flag with its value
attached asks for the same as the flag, in any spelling, with the value behind it
(`attached_values`).
-/
namespace CurlCode

open Text

/-! ### Where a token is split -/

namespace Flag

/-- The short spellings are in ASCII. -/
theorem ascii_of_mem_table :
    ∀ p ∈ table, p.1.toList.length = 2 → p.1.toList.all (·.toNat < 0x80) := by
  decide +kernel

theorem ascii_of_letter {letter : Char} {flag : Flag}
    (h : (String.ofList ['-', letter], flag) ∈ table) : letter.toNat < 0x80 := by
  simpa using ascii_of_mem_table _ h (by simp)

theorem letter_ne_dash {letter : Char} {flag : Flag}
    (h : (String.ofList ['-', letter], flag) ∈ table) : letter ≠ '-' := by
  rintro rfl
  have hnone : ofSpelling? (String.ofList ['-', '-']) = none := by decide +kernel
  exact ofSpelling?_eq_none_iff.1 hnone flag h

/-- A listed spelling that does not start with two dashes is a dash and a letter. -/
theorem eq_letter_of_mem_table {spelling : String} {flag : Flag} (h : (spelling, flag) ∈ table)
    (hlong : ¬ ['-', '-'] <+: spelling.toList) : ∃ letter, spelling = String.ofList ['-', letter] := by
  rcases short_or_long_of_mem_table _ h with hshort | htake
  · have hdash := dashed_of_mem_table _ h
    obtain ⟨c, letter, hlist⟩ := List.length_eq_two.1 hshort
    obtain rfl : c = '-' := by simpa [hlist] using hdash
    exact ⟨letter, by rw [← hlist, String.ofList_toList]⟩
  · exact absurd (List.prefix_iff_eq_take.2 htake.symm) hlong

/-- The text cut before one of its bytes; `none` if that is inside a character. -/
def cutAtByte? (n : Nat) (s : String) : Option (String × String) := do
  return (← ofUtf8? ((utf8 s).take n), ← ofUtf8? ((utf8 s).drop n))

theorem cutAtByte?_eq_some_iff {n : Nat} {s a b : String} :
    cutAtByte? n s = some (a, b) ↔ utf8 a = (utf8 s).take n ∧ utf8 b = (utf8 s).drop n := by
  simp only [cutAtByte?, bind, Option.bind_eq_some_iff, pure, Option.some.injEq, Prod.mk.injEq,
    ofUtf8?_eq_some_iff_utf8]
  constructor
  · rintro ⟨_, ha, _, hb, rfl, rfl⟩
    exact ⟨ha.symm, hb.symm⟩
  · rintro ⟨ha, hb⟩
    exact ⟨a, ha.symm, b, hb.symm, rfl, rfl⟩

/-- The rule in bytes: a longer token without two dashes in front is cut before its third byte. -/
def attachedInBytes? (token : String) : Option (Flag × String) :=
  if ['-', '-'] <+: token.toList ∨ (utf8 token).length ≤ 2 then none
  else do
    let (spelling, value) ← cutAtByte? 2 token
    let flag ← ofSpelling? spelling
    if flag.takesValue then some (flag, value) else none

theorem holds_of_attachedInBytes? {token value : String} {flag : Flag}
    (h : attachedInBytes? token = some (flag, value)) : Holds token flag value := by
  rw [attachedInBytes?] at h
  split at h
  · cases h
  · next hlong =>
    simp only [not_or, Nat.not_le] at hlong
    simp only [bind, Option.bind_eq_some_iff, Option.ite_none_right_eq_some, Option.some.injEq,
      Prod.mk.injEq, Prod.exists] at h
    obtain ⟨spelling, value, hcut, flag, hspelling, htakes, rfl, rfl⟩ := h
    obtain ⟨hfront, hback⟩ := cutAtByte?_eq_some_iff.1 hcut
    have htoken : token = spelling ++ value := by
      rw [← utf8_inj, utf8_append, hfront, hback, List.take_append_drop]
    have hlisted := ofSpelling?_eq_some_iff.1 hspelling
    have hshort : ¬ ['-', '-'] <+: spelling.toList := fun hp =>
      hlong.1 (htoken ▸ by simpa using hp.trans (List.prefix_append _ _))
    obtain ⟨letter, rfl⟩ := eq_letter_of_mem_table hlisted hshort
    refine ⟨letter, hlisted, htakes, ?_, htoken⟩
    rintro rfl
    have hempty : (utf8 "").length = (utf8 token).length - 2 := by
      rw [hback, List.length_drop]
    have hzero : (utf8 "").length = 0 := rfl
    omega

theorem utf8_letter {letter : Char} {flag : Flag}
    (h : (String.ofList ['-', letter], flag) ∈ table) :
    utf8 (String.ofList ['-', letter]) = [0x2D, UInt8.ofNat letter.toNat] := by
  have hdash : String.utf8EncodeChar '-' = [0x2D] := by decide
  simp [utf8, hdash, utf8EncodeChar_ascii (ascii_of_letter h)]

theorem attachedInBytes?_of_holds {token value : String} {flag : Flag}
    (h : Holds token flag value) : attachedInBytes? token = some (flag, value) := by
  obtain ⟨letter, hlisted, htakes, hne, rfl⟩ := h
  have hbytes := utf8_letter hlisted
  have hvalue : utf8 value ≠ [] := by
    intro hnil
    exact hne (utf8_inj.1 hnil)
  have hpositive := List.length_pos_iff.2 hvalue
  have hcut : cutAtByte? 2 (String.ofList ['-', letter] ++ value) =
      some (String.ofList ['-', letter], value) := by
    rw [cutAtByte?_eq_some_iff, utf8_append, hbytes]
    exact ⟨rfl, rfl⟩
  have hlong : ¬ (['-', '-'] <+: (String.ofList ['-', letter] ++ value).toList ∨
      (utf8 (String.ofList ['-', letter] ++ value)).length ≤ 2) := by
    rw [utf8_append, hbytes]
    simp [Ne.symm (letter_ne_dash hlisted)]
    omega
  have hspelling := ofSpelling?_eq_some_iff.2 hlisted
  rw [attachedInBytes?, if_neg hlong, hcut]
  simp only [bind, Option.bind_some, hspelling, htakes, if_true]

theorem attachedInBytes?_eq (token : String) : attachedInBytes? token = attached? token := by
  refine Option.ext fun ⟨flag, value⟩ => ?_
  rw [attached?_eq_some_iff]
  exact ⟨holds_of_attachedInBytes?, attachedInBytes?_of_holds⟩

end Flag

/-! ### Positions that the walk comes to -/

/-- Arguments behind which a flag may stand: none of them waits for its value. -/
inductive Settled : List String → Prop
  | nil : Settled []
  | alone {token : String} {rest : List String}
    (whole : ∀ flag, TokenKind.ofToken token ≠ .awaiting flag) (more : Settled rest) :
    Settled (token :: rest)
  | separate {token : String} {flag : Flag} (value : String) {rest : List String}
    (awaits : TokenKind.ofToken token = .awaiting flag) (more : Settled rest) :
    Settled (token :: value :: rest)

/-- A token that waits for no value is an occurrence by itself. -/
theorem exists_alone {token : String} (h : ∀ flag, TokenKind.ofToken token ≠ .awaiting flag) :
    ∃ o, ∀ rest, Occurrence.ofTokens (token :: rest) = o :: Occurrence.ofTokens rest := by
  obtain ⟨kind, hkind⟩ : ∃ kind, TokenKind.ofToken token = kind := ⟨_, rfl⟩
  obtain ⟨o, ho⟩ : ∃ o, kind.alone? token = some o := by
    cases kind with
    | awaiting flag => exact absurd hkind (h flag)
    | _ => exact ⟨_, rfl⟩
  exact ⟨o, ofTokens_alone kind (TokenKind.ofToken_eq_iff.1 hkind) ho⟩

/-- The walk cuts what stands before such a position and what stands behind it by themselves. -/
theorem Settled.ofTokens_append {before : List String} (h : Settled before)
    (after : List String) :
    Occurrence.ofTokens (before ++ after) =
      Occurrence.ofTokens before ++ Occurrence.ofTokens after := by
  induction h with
  | nil => rfl
  | @alone token rest whole _ ih =>
    obtain ⟨o, ho⟩ := exists_alone whole
    rw [List.cons_append, ho, ho, ih, List.cons_append]
  | @separate token flag value rest awaits _ ih =>
    rw [List.cons_append, List.cons_append, ofTokens_awaiting awaits, ofTokens_awaiting awaits, ih,
      List.cons_append]

/-- The walk comes to no other positions. -/
theorem settled_of_ofTokens_append : ∀ {before : List String},
    (∀ after, Occurrence.ofTokens (before ++ after) =
      Occurrence.ofTokens before ++ Occurrence.ofTokens after) → Settled before
  | [], _ => .nil
  | token :: rest, h => by
    by_cases hawaits : ∃ flag, TokenKind.ofToken token = .awaiting flag
    · obtain ⟨flag, hkind⟩ := hawaits
      cases rest with
      | nil =>
        -- Without a value it is left out, with one it is not.
        have hone := h [""]
        rw [List.singleton_append, ofTokens_awaiting hkind] at hone
        simp [Occurrence.ofTokens, hkind] at hone
      | cons value rest =>
        refine .separate value hkind (settled_of_ofTokens_append fun after => ?_)
        have hafter := h after
        rw [List.cons_append, List.cons_append, ofTokens_awaiting hkind, ofTokens_awaiting hkind,
          List.cons_append] at hafter
        exact List.tail_eq_of_cons_eq hafter
    · rw [not_exists] at hawaits
      obtain ⟨o, ho⟩ := exists_alone hawaits
      refine .alone hawaits (settled_of_ofTokens_append fun after => ?_)
      have hafter := h after
      rw [List.cons_append, ho, ho, List.cons_append] at hafter
      exact List.tail_eq_of_cons_eq hafter

/-! ### The request, whatever is ignored -/

namespace Walk

/-- What has been read of the request. -/
def withoutReport (w : Walk) : Walk := { w with ignored := #[] }

theorem withoutReport_next {w w' : Walk} (h : w.withoutReport = w'.withoutReport) (o : Occurrence) :
    (w.next o).withoutReport = (w'.next o).withoutReport := by
  simp only [withoutReport, Walk.mk.injEq] at h
  obtain ⟨hmethod, hurl, hheaders, hdata, hget, -⟩ := h
  simp only [withoutReport, next, hmethod, hurl, hheaders, hdata, hget]

theorem withoutReport_foldl (os : List Occurrence) {w w' : Walk}
    (h : w.withoutReport = w'.withoutReport) :
    (os.foldl next w).withoutReport = (os.foldl next w').withoutReport := by
  induction os generalizing w w' with
  | nil => exact h
  | cons o os ih => exact ih (withoutReport_next h o)

/-- The token that holds a flag goes into the report alone. -/
theorem withoutReport_valued (w : Walk) (flag : Flag) (token token' value : String) :
    (w.next (.valued flag token value)).withoutReport =
      (w.next (.valued flag token' value)).withoutReport := by
  cases flag <;> rfl

theorem finish_withoutReport (w : Walk) : w.withoutReport.finish = w.finish := rfl

theorem withoutReport_after (front back : List Occurrence) (flag : Flag)
    (token token' value : String) :
    (after (front ++ .valued flag token value :: back)).withoutReport =
      (after (front ++ .valued flag token' value :: back)).withoutReport := by
  simp only [after, List.foldl_append, List.foldl_cons]
  exact withoutReport_foldl back (withoutReport_valued _ flag token token' value)

end Walk

namespace Command

/-- The request alone, or what is wrong with the arguments. -/
theorem map_request_ofTokens (limits : Limits) (name : String) (arguments : List String) :
    (ofTokens limits (name :: arguments)).map request =
      if sameLetters name "curl" then
        let w := (Walk.after (Occurrence.ofTokens arguments)).withoutReport
        if w.headers.length ≤ limits.headers then w.finish
        else .error (.tooManyHeaders limits.headers)
      else .error (.notCurl name) := by
  rw [ofTokens, Walk.foldlM_read_start, Walk.within]
  simp only [Walk.finish_withoutReport]
  have hheaders (w : Walk) : w.withoutReport.headers = w.headers := rfl
  rw [hheaders]
  split
  · split
    · simp only [bind, Except.bind]
      cases (Walk.after (Occurrence.ofTokens arguments)).finish <;> rfl
    · rfl
  · rfl

theorem map_request_valued (limits : Limits) (name : String) {before : List String}
    (hbefore : Settled before) {arguments arguments' after : List String} {flag : Flag}
    {token token' value : String}
    (h : Occurrence.ofTokens arguments = .valued flag token value :: Occurrence.ofTokens after)
    (h' : Occurrence.ofTokens arguments' = .valued flag token' value :: Occurrence.ofTokens after) :
    (ofTokens limits (name :: (before ++ arguments))).map request =
      (ofTokens limits (name :: (before ++ arguments'))).map request := by
  have hsame := Walk.withoutReport_after (Occurrence.ofTokens before) (Occurrence.ofTokens after)
    flag token token' value
  rw [map_request_ofTokens, map_request_ofTokens, hbefore.ofTokens_append, hbefore.ofTokens_append,
    h, h', hsame]

/-- A token is split exactly if it is the two ASCII characters of a flag with a value and more
behind them. Where a flag may stand, such a token asks for the same as the flag in any of its
spellings with the value as a token of its own: for the same request, or it fails alike. -/
theorem attached_values (limits : Limits) (name : String) :
    (∀ token flag value, Flag.attached? token = some (flag, value) ↔
      ∃ letter : Char, letter.toNat < 0x80 ∧ (String.ofList ['-', letter], flag) ∈ Flag.table ∧
        flag.takesValue ∧ value ≠ "" ∧ token = String.ofList ['-', letter] ++ value) ∧
    (∀ token, Flag.attachedInBytes? token = Flag.attached? token) ∧
    ∀ before token flag value spelling after, Settled before →
      Flag.attached? token = some (flag, value) → (spelling, flag) ∈ Flag.table →
      (ofTokens limits (name :: (before ++ token :: after))).map request =
        (ofTokens limits (name :: (before ++ spelling :: value :: after))).map request := by
  refine ⟨fun token flag value => ?_, Flag.attachedInBytes?_eq, ?_⟩
  · rw [Flag.attached?_eq_some_iff]
    refine exists_congr fun letter => ?_
    constructor
    · rintro ⟨hlisted, hrest⟩
      exact ⟨Flag.ascii_of_letter hlisted, hlisted, hrest⟩
    · exact fun h => h.2
  · intro before token flag value spelling after hbefore hattached hlisted
    have hholds := Flag.attached?_eq_some_iff.1 hattached
    have htakes : flag.takesValue := by
      obtain ⟨letter, hletter, htakes, hne, htoken⟩ := hholds
      exact htakes
    have hone := ofTokens_alone (.attached flag value) hholds rfl after
    have htwo := ofTokens_awaiting (TokenKind.ofToken_eq_iff.2 ⟨hlisted, htakes⟩) value after
    exact map_request_valued limits name hbefore hone htwo

/-- Behind a flag that takes the next token as its value, data that looks like a flag. -/
theorem attached_values_dashed :
    Settled ["-X", "-dA", "-sSL"] ∧ Flag.attached? "-d-Gü" = some (.data, "-Gü") ∧
    ("--data-raw", .data) ∈ Flag.table ∧
    (ofTokens {} ["curl", "-X", "-dA", "-sSL", "-d-Gü", "h"]).map request =
      (ofTokens {} ["curl", "-X", "-dA", "-sSL", "--data-raw", "-Gü", "h"]).map request := by
  have hsettled : Settled ["-X", "-dA", "-sSL"] := by
    have hmethod : TokenKind.ofToken "-X" = .awaiting .method := by decide +kernel
    have hunknown : TokenKind.ofToken "-sSL" = .unknown := by decide +kernel
    exact .separate "-dA" hmethod (.alone (by simp [hunknown]) .nil)
  have hattached : Flag.attached? "-d-Gü" = some (.data, "-Gü") := by decide +kernel
  have hlisted : ("--data-raw", Flag.data) ∈ Flag.table := by decide +kernel
  exact ⟨hsettled, hattached, hlisted,
    (attached_values {} "curl").2.2 _ _ _ _ _ ["h"] hsettled hattached hlisted⟩

end Command

end CurlCode

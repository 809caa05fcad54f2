import CurlCode.Proofs.Shell.Reactions

/-!
Texts without words. Once a word has begun, the text has words (`Begun.step`), and only
gaps leave the scanner without one, so a text without words is made of gaps
(`words_eq_nil_iff`).
-/
namespace CurlCode.Shell

open CurlCode.Text

/-- Blanks and protected line ends, and nothing else. -/
def Vacant (text : String) : Prop := ∃ gaps : List Gap, text.toList = gaps.flatMap Gap.write

namespace Scanner

/-- A word is being read, or has been. -/
def Begun (s : Scanner) : Prop := s.word.isSome ∨ s.words ≠ #[]

theorem begun_push (c : Char) (s : Scanner) : (s.push c).Begun := .inl rfl

theorem begun_openWord (s : Scanner) : s.openWord.Begun := .inl rfl

theorem Begun.enter {s : Scanner} (h : s.Begun) (m : Mode) : (s.enter m).Begun := h

theorem Begun.endWord {s : Scanner} (h : s.Begun) : s.endWord.Begun := by
  rw [Scanner.endWord]
  split
  · exact h
  · exact .inr (by simp)

theorem Begun.apply {s : Scanner} (h : s.Begun) (a : Action) : (a.apply s).Begun := by
  cases a with
  | push c => exact begun_push c s
  | openWord => exact begun_openWord s
  | endWord => exact h.endWord

theorem Begun.perform {s : Scanner} (h : s.Begun) (actions : List Action) :
    (perform actions s).Begun := by
  induction actions generalizing s with
  | nil => exact h
  | cons a actions ih => exact ih (h.apply a)

theorem Begun.run {s : Scanner} (h : s.Begun) (r : Reaction) : (r.run s).Begun :=
  (h.perform r.actions).enter r.next

theorem Begun.step {s : Scanner} (h : s.Begun) (c : Char) : (s.step c).Begun := by
  rw [step_eq]
  exact h.run _

theorem Begun.scan {s : Scanner} (h : s.Begun) (text : List Char) : (scan s text).Begun := by
  induction text generalizing s with
  | nil => exact h
  | cons c text ih => exact ih (h.step c)

/-- A word that has begun is among the words in the end. -/
theorem Begun.finish_ne_nil {s : Scanner} (h : s.Begun) (text : List Char) :
    (Shell.scan s text).finish ≠ [] := by
  rw [finish_eq]
  rcases ((h.scan text).perform _).endWord with hword | hwords
  · simp [word_endWord] at hword
  · simpa using hwords

end Scanner

open Scanner

theorem exists_gap_of_backslash {r : List Char}
    (h : (scan start ('\\' :: r)).finish = []) :
    ∃ (g : Gap) (rest : List Char), '\\' :: r = g.write ++ rest := by
  rcases r with _ | ⟨d, r⟩
  · exact absurd h (by decide)
  by_cases hline : d = '\n'
  · subst hline
    exact ⟨.lineFeed, r, rfl⟩
  by_cases hreturn : d = '\r'
  · subst hreturn
    rcases r with _ | ⟨e, r⟩
    · exact absurd h (by decide)
    by_cases hline' : e = '\n'
    · subst hline'
      exact ⟨.returnLineFeed, r, rfl⟩
    · have hstep : (start.enter .bareReturn).step e =
          (((start.enter .bareReturn).push '\r').enter .bare).readBare e := if_neg hline'
      have hbegun : ((start.enter .bareReturn).step e).Begun := by
        rw [hstep, readBare_eq rfl]
        exact ((begun_push '\r' _).enter .bare).run _
      exact absurd h (hbegun.finish_ne_nil r)
  · have hstep : (start.enter .bareEscape).step d =
        ((start.enter .bareEscape).push d).enter .bare :=
      (if_neg hline).trans (if_neg hreturn)
    have hbegun : ((start.enter .bareEscape).step d).Begun := by
      rw [hstep]
      exact (begun_push d _).enter .bare
    exact absurd h (hbegun.finish_ne_nil r)

theorem begun_dollar (d : Char) : ((start.enter .dollar).step d).Begun := by
  by_cases hquote : d = '\''
  · have hstep : (start.enter .dollar).step d = (start.enter .dollar).openWord.enter .ansi :=
      if_pos hquote
    rw [hstep]
    exact (begun_openWord _).enter .ansi
  · have hstep : (start.enter .dollar).step d =
        (((start.enter .dollar).push '$').enter .bare).readBare d := if_neg hquote
    rw [hstep, readBare_eq rfl]
    exact ((begun_push '$' _).enter .bare).run _

/-- A text without words starts with a gap, if with anything. -/
theorem exists_gap_of_finish {c : Char} {r : List Char}
    (h : (scan start (c :: r)).finish = []) :
    ∃ (g : Gap) (rest : List Char), c :: r = g.write ++ rest := by
  by_cases hblank : isBlank c
  · exact ⟨.blank c hblank, r, rfl⟩
  by_cases hbackslash : c = '\\'
  · subst hbackslash
    exact exists_gap_of_backslash h
  by_cases hdollar : c = '$'
  · subst hdollar
    rcases r with _ | ⟨d, r⟩
    · exact absurd h (by decide)
    · exact absurd h ((begun_dollar d).finish_ne_nil r)
  · have hstep : start.step c = start.readBare c := rfl
    have hbegun : (start.step c).Begun := by
      rw [hstep, Scanner.readBare]
      split_ifs
      · exact (begun_openWord _).enter .single
      · exact (begun_openWord _).enter .double
      · exact begun_push c _
    exact absurd h (hbegun.finish_ne_nil r)

theorem scan_gap_append (g : Gap) (rest : List Char) :
    scan start (g.write ++ rest) = scan start rest := by
  rw [scan_append, scan_gap g start rfl]
  rfl

theorem gaps_of_finish (text : List Char) (h : (scan start text).finish = []) :
    ∃ gaps : List Gap, text = gaps.flatMap Gap.write := by
  induction hn : text.length using Nat.strongRecOn generalizing text with
  | ind n ih =>
    cases text with
    | nil => exact ⟨[], rfl⟩
    | cons c r =>
      obtain ⟨g, rest, htext⟩ := exists_gap_of_finish h
      have hpos : 0 < g.write.length := by cases g <;> simp [Gap.write]
      have hlength : rest.length < n := by
        rw [htext, List.length_append] at hn
        omega
      rw [htext, scan_gap_append] at h
      obtain ⟨gaps, rfl⟩ := ih rest.length hlength rest h rfl
      exact ⟨g :: gaps, htext⟩

theorem vacant_of_blank {text : String} (h : text.toList.all isBlank) : Vacant text := by
  have hgaps (cs : List Char) (hcs : ∀ c ∈ cs, isBlank c) :
      ∃ gaps : List Gap, cs = gaps.flatMap Gap.write := by
    induction cs with
    | nil => exact ⟨[], rfl⟩
    | cons c cs ih =>
      obtain ⟨gaps, hgaps⟩ := ih fun d hd => hcs d (.tail _ hd)
      exact ⟨.blank c (hcs c (.head _)) :: gaps, congrArg (c :: ·) hgaps⟩
  exact hgaps _ (List.all_eq_true.1 h)

/-- A command line has no words if and only if it is made of gaps. -/
theorem words_eq_nil_iff (text : String) : words text = [] ↔ Vacant text := by
  constructor
  · exact gaps_of_finish text.toList
  · rintro ⟨gaps, hgaps⟩
    rw [words, hgaps, finish_scan_gaps gaps start rfl]
    rfl

end CurlCode.Shell

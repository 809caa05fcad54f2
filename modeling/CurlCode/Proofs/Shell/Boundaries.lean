import CurlCode.Proofs.Shell.Reactions

/-!
Cutting a command line in two. What the second part adds hangs on the mode in which the first
one ends: outside quotes a separator makes the parts independent (`words_parted`), in quotes the
end of the text does what the closing quote does (`words_closed`), and the two ways of breaking
a line agree outside quotes only (`words_continued`).
-/
namespace CurlCode.Shell

open CurlCode.Text
open Scanner

namespace Mode

/-- The quote that ends the segment being read; `none` outside quotes. -/
def quote? : Mode → Option Char
  | .bare | .bareEscape | .bareReturn | .dollar => none
  | .single | .ansi | .ansiEscape | .codePoint _ _ => some '\''
  | .double | .doubleEscape => some '"'

/-- Directly after a backslash that protects the next character. -/
def isEscape : Mode → Bool
  | .bareEscape | .doubleEscape | .ansiEscape => true
  | _ => false

/-- A backslash outside quotes leaves what is pending to itself. -/
theorem react_backslash {m : Mode} (hplace : m.quote? = none) (hfree : m.isEscape = false) :
    m.react '\\' = ⟨m.settling, .bareEscape⟩ := by
  cases m with
  | bare => rfl
  | bareReturn => rfl
  | dollar => rfl
  | bareEscape => cases hfree
  | _ => cases hplace

/-- So does a blank, but that a line feed after a carriage return may end a line. -/
theorem react_blank {m : Mode} (hplace : m.quote? = none) (hfree : m.isEscape = false)
    (hreturn : m ≠ .bareReturn) {c : Char} (hc : isBlank c) :
    m.react c = ⟨m.settling ++ [.endWord], .bare⟩ := by
  have hordinary : c ≠ '\'' ∧ c ≠ '"' ∧ c ≠ '\\' ∧ c ≠ '$' := by
    refine ⟨?_, ?_, ?_, ?_⟩ <;> (rintro rfl; revert hc; decide)
  have hbare : reactBare c = ⟨[.endWord], .bare⟩ := by simp [reactBare, hordinary, hc]
  cases m with
  | bare => exact hbare
  | dollar => simp [react, hordinary, hbare, Reaction.after]
  | bareReturn => exact absurd rfl hreturn
  | bareEscape => cases hfree
  | _ => cases hplace

/-- The closing quote leaves what is pending to itself and ends the segment. -/
theorem react_quote {m : Mode} {quote : Char} (hopen : m.quote? = some quote)
    (hfree : m.isEscape = false) : m.react quote = ⟨m.settling, .bare⟩ := by
  cases m with
  | single | ansi | double =>
    cases hopen
    rfl
  | codePoint form digits =>
    cases hopen
    have hhex : isHexDigit '\'' = false := by decide
    simp [react, hhex, reactAnsi, Reaction.after]
  | doubleEscape | ansiEscape => cases hfree
  | _ => cases hopen

end Mode

/-! ### Separators -/

theorem endWord_settling (s : Scanner) :
    (perform s.mode.settling s).endWord.enter .bare = ⟨.bare, none, s.finish.toArray⟩ := by
  rw [finish_eq, Array.toArray_toList, enter, word_endWord]

/-- Outside quotes both ways of protecting a line end finish the words read so far. -/
theorem scan_continuation {s : Scanner} (hplace : s.mode.quote? = none)
    (hfree : s.mode.isEscape = false) :
    scan s ['\\', '\n'] = ⟨.bare, none, s.finish.toArray⟩ ∧
      scan s ['\\', '\r', '\n'] = ⟨.bare, none, s.finish.toArray⟩ := by
  have hfirst : s.step '\\' = (perform s.mode.settling s).enter .bareEscape := by
    rw [step_eq, Mode.react_backslash hplace hfree]
    rfl
  have hreturn (t : Scanner) : (t.enter .bareEscape).step '\r' = t.enter .bareReturn := rfl
  have hend (m : Mode) (t : Scanner) : (t.enter m).endWord.enter .bare = t.endWord.enter .bare := by
    rw [endWord_enter, enter_enter]
  constructor
  · rw [scan_cons, hfirst, ← endWord_settling]
    exact hend .bareEscape _
  · rw [scan_cons, hfirst, scan_cons, hreturn, ← endWord_settling]
    exact hend .bareReturn _

/-- So does every separator. -/
theorem scan_separator {s : Scanner} (hplace : s.mode.quote? = none)
    (hfree : s.mode.isEscape = false) (hreturn : s.mode ≠ .bareReturn) (g : Gap) :
    scan s g.write = ⟨.bare, none, s.finish.toArray⟩ := by
  cases g with
  | blank c hc =>
    have hstep : s.step c = (perform s.mode.settling s).endWord.enter .bare := by
      rw [step_eq, Mode.react_blank hplace hfree hreturn hc, Reaction.run, perform_append]
      rfl
    exact hstep.trans (endWord_settling s)
  | lineFeed => exact (scan_continuation hplace hfree).1
  | returnLineFeed => exact (scan_continuation hplace hfree).2

theorem words_between (a text b : String) :
    words (a ++ text ++ b) = (scan (scan (scan start a.toList) text.toList) b.toList).finish := by
  rw [words, String.toList_append, String.toList_append, scan_append, scan_append]

/-- Outside quotes a separator cuts a command line in two that are read on their own. -/
theorem words_parted (a b : String) (g : Gap)
    (hplace : (scan start a.toList).mode.quote? = none)
    (hfree : (scan start a.toList).mode.isEscape = false)
    (hreturn : (scan start a.toList).mode ≠ .bareReturn) :
    words (a ++ String.ofList g.write ++ b) = words a ++ words b := by
  have hgap : scan (scan start a.toList) g.write = ⟨.bare, none, (words a).toArray⟩ :=
    scan_separator hplace hfree hreturn g
  rw [words_between, String.toList_ofList, hgap, finish_scan_between]
  rfl

theorem words_parted_pending :
    words ("'x y'$" ++ String.ofList Gap.returnLineFeed.write ++ "'\"z") = ["x y$", "\"z"] :=
  (words_parted "'x y'$" "'\"z" .returnLineFeed (by decide) (by decide) (by decide)).trans
    (by decide)

/-! ### Line ends -/

/-- In double quotes a backslash vanishes with a line feed behind it and stands for itself
before a carriage return. -/
theorem scan_continuation_double {s : Scanner} (hs : s.mode = .double) :
    scan s ['\\', '\n'] = s ∧
      scan s ['\\', '\r', '\n'] = scan s ['\\', '\\', '\r', '\n'] := by
  obtain ⟨mode, word, words⟩ := s
  cases hs
  exact ⟨rfl, rfl⟩

theorem Mode.eq_double {m : Mode} (hopen : m.quote? = some '"') (hfree : m.isEscape = false) :
    m = .double := by
  cases m with
  | double => rfl
  | doubleEscape => cases hfree
  | _ => simp [quote?] at hopen

/-- Three more characters in a word are never lost, whatever follows them. -/
theorem finish_ne_continued {s : Scanner} (hs : s.mode = .double) (text : List Char) :
    (scan s text).finish ≠ (scan (scan s ['\\', '\r', '\n']) text).finish := by
  have hmode : (scan s ['\\', '\r', '\n']).mode = .double := by
    rw [mode_scan, hs]
    rfl
  have hletters : (scan s ['\\', '\r', '\n']).letters = s.letters ++ ['\\', '\r', '\n'] := by
    rw [letters_scan, hs]
    rfl
  intro heq
  have hall := congrArg (List.flatMap String.toList) heq
  rw [letters_finish_scan, letters_finish_scan, hmode, hs, hletters] at hall
  have hlength := congrArg List.length hall
  simp only [List.length_append, List.length_cons, List.length_nil] at hlength
  omega

/-- The two ways of protecting a line end agree outside quotes and differ in double quotes: there
the backslash before a line feed joins the lines, and before a carriage return it is text. -/
theorem words_continued (a b : String)
    (hplace : (scan start a.toList).mode.quote? = none ∨
      (scan start a.toList).mode.quote? = some '"')
    (hfree : (scan start a.toList).mode.isEscape = false) :
    (words (a ++ "\\\n" ++ b) = words (a ++ "\\\r\n" ++ b) ↔
      (scan start a.toList).mode.quote? = none) ∧
    ((scan start a.toList).mode.quote? = some '"' →
      words (a ++ "\\\n" ++ b) = words (a ++ b) ∧
        words (a ++ "\\\r\n" ++ b) = words (a ++ "\\\\\r\n" ++ b)) := by
  have hfeed : "\\\n".toList = ['\\', '\n'] := by decide
  have hboth : "\\\r\n".toList = ['\\', '\r', '\n'] := by decide
  have htext : "\\\\\r\n".toList = ['\\', '\\', '\r', '\n'] := by decide
  simp only [words_between, hfeed, hboth, htext]
  constructor
  · constructor
    · intro heq
      refine hplace.resolve_right fun hquote => ?_
      have hdouble := Mode.eq_double hquote hfree
      rw [(scan_continuation_double hdouble).1] at heq
      exact finish_ne_continued hdouble _ heq
    · intro hout
      obtain ⟨hline, hreturn⟩ := scan_continuation hout hfree
      rw [hline, hreturn]
  · intro hquote
    obtain ⟨hline, hreturn⟩ := scan_continuation_double (Mode.eq_double hquote hfree)
    rw [hline, hreturn, words, String.toList_append, scan_append]
    exact ⟨rfl, rfl⟩

theorem words_continued_double :
    (words ("$" ++ "\\\n" ++ "'b") = words ("$" ++ "\\\r\n" ++ "'b")) ∧
      words ("\"a" ++ "\\\n" ++ "b\"") = words ("\"a" ++ "b\"") :=
  ⟨(words_continued "$" "'b" (by decide) (by decide)).1.2 (by decide),
    ((words_continued "\"a" "b\"" (by decide) (by decide)).2 (by decide)).1⟩

/-- In double quotes the two ways of protecting a line end are not the same. -/
theorem continuation_in_quotes :
    (scan start "\"a".toList).mode = .double ∧
      words ("\"a" ++ "\\\n" ++ "b\"") ≠ words ("\"a" ++ "\\\r\n" ++ "b\"") := by
  decide

/-! ### Closing quotes -/

theorem scan_quote {s : Scanner} {quote : Char} (hopen : s.mode.quote? = some quote)
    (hfree : s.mode.isEscape = false) :
    scan s [quote] = (perform s.mode.settling s).enter .bare := by
  rw [scan_cons, scan_nil, step_eq, Mode.react_quote hopen hfree]
  rfl

/-- A text that breaks off in quotes is read as if they were closed, in the middle of a code
point escape too. -/
theorem words_closed (a : String) (quote : Char)
    (hopen : (scan start a.toList).mode.quote? = some quote)
    (hfree : (scan start a.toList).mode.isEscape = false) :
    words (a.push quote) = words a ∧ (scan start (a.push quote).toList).mode = .bare := by
  have hscan : scan start (a.push quote).toList =
      (perform (scan start a.toList).mode.settling (scan start a.toList)).enter .bare := by
    rw [String.toList_push, scan_append, scan_quote hopen hfree]
  constructor
  · rw [words, hscan, finish_eq, words, finish_eq]
    exact congrArg (·.words.toList) (endWord_enter .bare _)
  · rw [hscan]
    rfl

theorem words_closed_escape : words ("a\"b\"$'\\u4".push '\'') = ["ab\x04"] :=
  (words_closed "a\"b\"$'\\u4" '\'' (by decide) (by decide)).1.trans (by decide)

end CurlCode.Shell

import CurlCode.Proofs.Shell.Writing
import Mathlib.Tactic.SplitIfs

/-!
The scanner as a transducer. What a character does depends on the mode alone: it makes a few
changes to the words and chooses the next mode (`Mode.react`, `step_eq`). So a stretch of text
makes the same changes wherever the same mode reads it (`scan_eq`), and what each change keeps,
a whole scan keeps.
-/
namespace CurlCode.Shell

open CurlCode.Text

/-- A change to the words. -/
inductive Action where
  | push (c : Char)
  | openWord
  | endWord
  deriving DecidableEq, Repr

def Action.apply : Action → Scanner → Scanner
  | .push c => Scanner.push c
  | .openWord => Scanner.openWord
  | .endWord => Scanner.endWord

def perform (actions : List Action) (s : Scanner) : Scanner :=
  actions.foldl (fun s a => a.apply s) s

@[simp] theorem perform_nil (s : Scanner) : perform [] s = s := rfl
@[simp] theorem perform_cons (a : Action) (actions : List Action) (s : Scanner) :
    perform (a :: actions) s = perform actions (a.apply s) := rfl
theorem perform_append (a b : List Action) (s : Scanner) :
    perform (a ++ b) s = perform b (perform a s) := List.foldl_append

theorem Action.apply_enter (a : Action) (m : Mode) (s : Scanner) :
    a.apply (s.enter m) = (a.apply s).enter m := by
  cases a with
  | push c => rfl
  | openWord => rfl
  | endWord => exact endWord_enter m s

theorem perform_enter (actions : List Action) (m : Mode) (s : Scanner) :
    perform actions (s.enter m) = (perform actions s).enter m := by
  induction actions generalizing s with
  | nil => rfl
  | cons a actions ih => rw [perform_cons, perform_cons, a.apply_enter, ih]

theorem perform_push (text : List Char) (s : Scanner) :
    perform (text.map .push) s = text.foldl (fun s c => s.push c) s := by
  simp [perform, List.foldl_map, Action.apply]

/-! ### One character -/

/-- The changes a character makes, and the mode it leaves. -/
structure Reaction where
  actions : List Action
  next : Mode
  deriving DecidableEq, Repr

namespace Reaction

def run (r : Reaction) (s : Scanner) : Scanner := (perform r.actions s).enter r.next

/-- React after other changes. -/
def after (actions : List Action) (r : Reaction) : Reaction := ⟨actions ++ r.actions, r.next⟩

theorem run_after (actions : List Action) (r : Reaction) (s : Scanner) :
    (r.after actions).run s = r.run (perform actions s) := by
  simp only [run, after, perform_append]

theorem run_enter (r : Reaction) (m : Mode) (s : Scanner) : r.run (s.enter m) = r.run s := by
  rw [run, perform_enter, Scanner.enter_enter, run]

end Reaction

namespace Mode

/-- What a pending stretch of text stands for when it comes to nothing. -/
def leftover : Mode → List Char
  | .bareEscape | .doubleEscape | .ansiEscape => ['\\']
  | .bareReturn => ['\r']
  | .dollar => ['$']
  | .codePoint form digits => Scanner.codePointText form digits
  | .bare | .single | .double | .ansi => []

def settling (m : Mode) : List Action := m.leftover.map .push

def reactBare (c : Char) : Reaction :=
  if c = '\'' then ⟨[.openWord], .single⟩
  else if c = '"' then ⟨[.openWord], .double⟩
  else if c = '\\' then ⟨[], .bareEscape⟩
  else if c = '$' then ⟨[], .dollar⟩
  else if isBlank c then ⟨[.endWord], .bare⟩
  else ⟨[.push c], .bare⟩

def reactAnsi (c : Char) : Reaction :=
  if c = '\'' then ⟨[], .bare⟩
  else if c = '\\' then ⟨[], .ansiEscape⟩
  else ⟨[.push c], .ansi⟩

def reactAnsiEscape (c : Char) : Reaction :=
  if c = 'n' then ⟨[.push '\n'], .ansi⟩
  else if c = 't' then ⟨[.push '\t'], .ansi⟩
  else if c = 'r' then ⟨[.push '\r'], .ansi⟩
  else if c = '0' then ⟨[.push '\x00'], .ansi⟩
  else if c = 'x' then ⟨[], .codePoint .byte []⟩
  else if c = 'u' then ⟨[], .codePoint .short []⟩
  else if c = 'U' then ⟨[], .codePoint .long []⟩
  else if c = '\\' ∨ c = '\'' ∨ c = '"' ∨ c = '?' then ⟨[.push c], .ansi⟩
  else ⟨[.push '\\', .push c], .ansi⟩

/-- What a character does in a mode, whatever has been read before: the rows of `Scanner.step`
with the scanner left out. -/
def react (m : Mode) (c : Char) : Reaction :=
  match m with
  | .bare => reactBare c
  | .bareEscape =>
    if c = '\n' then ⟨[.endWord], .bare⟩
    else if c = '\r' then ⟨[], .bareReturn⟩
    else ⟨[.push c], .bare⟩
  | .bareReturn =>
    if c = '\n' then ⟨[.endWord], .bare⟩ else (reactBare c).after (settling .bareReturn)
  | .dollar =>
    if c = '\'' then ⟨[.openWord], .ansi⟩ else (reactBare c).after (settling .dollar)
  | .single => if c = '\'' then ⟨[], .bare⟩ else ⟨[.push c], .single⟩
  | .double =>
    if c = '"' then ⟨[], .bare⟩
    else if c = '\\' then ⟨[], .doubleEscape⟩
    else ⟨[.push c], .double⟩
  | .doubleEscape =>
    if c = '"' ∨ c = '\\' ∨ c = '\x60' ∨ c = '$' then ⟨[.push c], .double⟩
    else if c = '\n' then ⟨[], .double⟩
    else ⟨[.push '\\', .push c], .double⟩
  | .ansi => reactAnsi c
  | .ansiEscape => reactAnsiEscape c
  | .codePoint form digits =>
    if isHexDigit c ∧ digits.length < form.maxDigits then ⟨[], .codePoint form (digits ++ [c])⟩
    else (reactAnsi c).after (settling (.codePoint form digits))

end Mode

namespace Scanner

theorem readBare_eq {s : Scanner} (hs : s.mode = .bare) (c : Char) :
    s.readBare c = (Mode.reactBare c).run s := by
  rw [readBare, Mode.reactBare]
  split_ifs
  · rfl
  · rfl
  · rfl
  · rfl
  · have hend : s.endWord.mode = .bare := (mode_endWord s).trans hs
    exact (enter_of_mode hend).symm
  · have hpush : (s.push c).mode = .bare := hs
    exact (enter_of_mode hpush).symm

theorem readAnsi_eq {s : Scanner} (hs : s.mode = .ansi) (c : Char) :
    s.readAnsi c = (Mode.reactAnsi c).run s := by
  rw [readAnsi, Mode.reactAnsi]
  split_ifs
  · rfl
  · rfl
  · have hpush : (s.push c).mode = .ansi := hs
    exact (enter_of_mode hpush).symm

theorem readAnsiEscape_eq (s : Scanner) (c : Char) :
    s.readAnsiEscape c = (Mode.reactAnsiEscape c).run s := by
  rw [readAnsiEscape, Mode.reactAnsiEscape]
  split_ifs <;> rfl

theorem endCodePoint_eq (form : CodePointForm) (digits : List Char) (s : Scanner) :
    s.endCodePoint form digits =
      (perform (Mode.settling (.codePoint form digits)) s).enter .ansi := by
  rw [endCodePoint, Mode.settling, perform_push, Mode.leftover]

/-- A step is the reaction of its mode. -/
theorem step_eq (s : Scanner) (c : Char) : s.step c = (s.mode.react c).run s := by
  rw [step]
  cases hs : s.mode with
  | bare => exact readBare_eq hs c
  | bareEscape =>
    simp only [Mode.react]
    split_ifs <;> rfl
  | bareReturn =>
    simp only [Mode.react]
    split_ifs
    · rfl
    -- the carriage return is written first, and then the character is read outside quotes
    · rw [readBare_eq rfl, Reaction.run_enter, Reaction.run_after]
      rfl
  | dollar =>
    simp only [Mode.react]
    split_ifs
    · rfl
    · rw [readBare_eq rfl, Reaction.run_enter, Reaction.run_after]
      rfl
  | single =>
    simp only [Mode.react]
    split_ifs
    · rfl
    · have hpush : (s.push c).mode = .single := hs
      exact (enter_of_mode hpush).symm
  | double =>
    simp only [Mode.react]
    split_ifs
    · rfl
    · rfl
    · have hpush : (s.push c).mode = .double := hs
      exact (enter_of_mode hpush).symm
  | doubleEscape =>
    simp only [Mode.react]
    split_ifs <;> rfl
  | ansi => exact readAnsi_eq hs c
  | ansiEscape => exact readAnsiEscape_eq s c
  | codePoint form digits =>
    simp only [Mode.react]
    split_ifs
    · rfl
    · rw [endCodePoint_eq, readAnsi_eq rfl, Reaction.run_enter, Reaction.run_after]

theorem mode_step (s : Scanner) (c : Char) : (s.step c).mode = (s.mode.react c).next := by
  rw [step_eq]
  rfl

theorem word_endWord (s : Scanner) : s.endWord.word = none := by
  cases h : s.word <;> simp [endWord, h]

/-- The words are those that have ended, with the last one that what is pending belongs to. -/
theorem finish_eq (s : Scanner) :
    s.finish = (perform s.mode.settling s).endWord.words.toList := by
  rw [finish, settle]
  cases s.mode with
  | codePoint form digits =>
    simp only [endCodePoint_eq, endWord_enter]
    rfl
  | _ => rfl

end Scanner

/-! ### A stretch of text -/

namespace Mode

/-- The mode after a stretch of text. -/
def after (m : Mode) (text : List Char) : Mode := text.foldl (fun m c => (m.react c).next) m

/-- The changes that a stretch of text makes. -/
def actions : Mode → List Char → List Action
  | _, [] => []
  | m, c :: text => (m.react c).actions ++ (m.react c).next.actions text

end Mode

open Scanner

theorem scan_eq (s : Scanner) (text : List Char) :
    scan s text = (perform (s.mode.actions text) s).enter (s.mode.after text) := by
  induction text generalizing s with
  | nil => rfl
  | cons c text ih =>
    rw [scan_cons, ih, mode_step, step_eq, Reaction.run, perform_enter, enter_enter, ← perform_append]
    rfl

theorem mode_scan (s : Scanner) (text : List Char) : (scan s text).mode = s.mode.after text := by
  rw [scan_eq]
  rfl

/-! ### What was read before -/

namespace Scanner

/-- With earlier words in front. -/
def behind (earlier : Array String) (s : Scanner) : Scanner :=
  { s with words := earlier ++ s.words }

theorem endWord_behind (earlier : Array String) (s : Scanner) :
    (s.behind earlier).endWord = s.endWord.behind earlier := by
  cases h : s.word with
  | none => simp [endWord, behind, h]
  | some w => simp [endWord, behind, h]

end Scanner

theorem Action.apply_behind (a : Action) (earlier : Array String) (s : Scanner) :
    a.apply (s.behind earlier) = (a.apply s).behind earlier := by
  cases a with
  | push c => rfl
  | openWord => rfl
  | endWord => exact endWord_behind earlier s

theorem perform_behind (actions : List Action) (earlier : Array String) (s : Scanner) :
    perform actions (s.behind earlier) = (perform actions s).behind earlier := by
  induction actions generalizing s with
  | nil => rfl
  | cons a actions ih => rw [perform_cons, perform_cons, a.apply_behind, ih]

theorem scan_behind (earlier : Array String) (s : Scanner) (text : List Char) :
    scan (s.behind earlier) text = (scan s text).behind earlier := by
  rw [scan_eq, scan_eq, perform_behind]
  rfl

theorem finish_behind (earlier : Array String) (s : Scanner) :
    (s.behind earlier).finish = earlier.toList ++ s.finish := by
  have hmode : (s.behind earlier).mode = s.mode := rfl
  rw [finish_eq, finish_eq, hmode, perform_behind, endWord_behind]
  exact Array.toList_append

/-- Between two words, only the words themselves are left of what was read. -/
theorem finish_scan_between (earlier : Array String) (text : List Char) :
    (scan ⟨.bare, none, earlier⟩ text).finish = earlier.toList ++ (scan start text).finish := by
  have hstart : (⟨.bare, none, earlier⟩ : Scanner) = start.behind earlier := by
    simp [behind, start]
  rw [hstart, scan_behind, finish_behind]

/-! ### The characters of the words -/

namespace Scanner

/-- The characters of the words, one word after the other. -/
def letters (s : Scanner) : List Char :=
  (s.words.toList ++ s.word.toList).flatMap String.toList

theorem letters_push (c : Char) (s : Scanner) : (s.push c).letters = s.letters ++ [c] := by
  cases h : s.word <;> simp [letters, push, h]

theorem letters_openWord (s : Scanner) : s.openWord.letters = s.letters := by
  cases h : s.word <;> simp [letters, openWord, h]

theorem letters_endWord (s : Scanner) : s.endWord.letters = s.letters := by
  cases h : s.word <;> simp [letters, endWord, h]

end Scanner

def Action.letters : Action → List Char
  | .push c => [c]
  | .openWord | .endWord => []

theorem Action.letters_apply (a : Action) (s : Scanner) :
    (a.apply s).letters = s.letters ++ a.letters := by
  cases a with
  | push c => exact letters_push c s
  | openWord => exact (letters_openWord s).trans (List.append_nil _).symm
  | endWord => exact (letters_endWord s).trans (List.append_nil _).symm

theorem letters_perform (actions : List Action) (s : Scanner) :
    (perform actions s).letters = s.letters ++ actions.flatMap Action.letters := by
  induction actions generalizing s with
  | nil => simp
  | cons a actions ih => simp [ih, a.letters_apply]

theorem letters_scan (s : Scanner) (text : List Char) :
    (scan s text).letters = s.letters ++ (s.mode.actions text).flatMap Action.letters := by
  rw [scan_eq, ← letters_perform]
  rfl

theorem letters_settling (m : Mode) : m.settling.flatMap Action.letters = m.leftover := by
  simp [Mode.settling, List.flatMap_map, Action.letters]

theorem letters_finish (s : Scanner) :
    s.finish.flatMap String.toList = s.letters ++ s.mode.leftover := by
  have hletters : s.finish.flatMap String.toList =
      (perform s.mode.settling s).endWord.letters := by
    simp [finish_eq, Scanner.letters, word_endWord]
  rw [hletters, letters_endWord, letters_perform, letters_settling]

/-- The characters that a text adds to the words when nothing follows it. -/
def Mode.output (m : Mode) (text : List Char) : List Char :=
  (m.actions text).flatMap Action.letters ++ (m.after text).leftover

theorem letters_finish_scan (s : Scanner) (text : List Char) :
    (scan s text).finish.flatMap String.toList = s.letters ++ s.mode.output text := by
  rw [letters_finish, letters_scan, mode_scan, Mode.output, List.append_assoc]

end CurlCode.Shell

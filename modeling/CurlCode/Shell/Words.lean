import CurlCode.Text.Ascii
import CurlCode.Text.Blank

/-!
Splitting a command line into words, with one level of quoting removed.

The scanner reads one character at a time and never looks ahead: a character whose
meaning hangs on the next one is remembered in the mode. So scanning is a fold, and
what is read after a stretch of text depends on that text through the scanner alone
(`scan_append`).

* Blanks, and a backslash before a line end, separate words.
* `'…'` is literal. In `"…"` a backslash protects `"`, `\`, the backtick and `$`, and
  joins lines. `$'…'` knows the escapes listed at `readAnsiEscape`.
* Segments without a separator between them make one word.
* A quote without its partner reaches to the end of the text.
-/
namespace CurlCode.Shell

open CurlCode.Text

/-- The escapes that name a code point in hexadecimal: `\x`, `\u` and `\U`. -/
inductive CodePointForm where
  | byte | short | long
  deriving DecidableEq, Repr

def CodePointForm.letter : CodePointForm → Char
  | .byte => 'x'
  | .short => 'u'
  | .long => 'U'

def CodePointForm.maxDigits : CodePointForm → Nat
  | .byte => 2
  | .short => 4
  | .long => 8

/-- Where the scanner stands. -/
inductive Mode where
  /-- Outside quotes. -/
  | bare
  /-- Outside quotes, after a backslash. -/
  | bareEscape
  /-- Outside quotes, after a backslash and a carriage return. -/
  | bareReturn
  /-- Outside quotes, after a dollar sign. -/
  | dollar
  | single
  | double
  /-- In double quotes, after a backslash. -/
  | doubleEscape
  | ansi
  /-- In `$'…'`, after a backslash. -/
  | ansiEscape
  /-- In `$'…'`, after the letter of a code point escape and some of its digits. -/
  | codePoint (form : CodePointForm) (digits : List Char)
  deriving DecidableEq, Repr

structure Scanner where
  mode : Mode
  /-- The word being read; `none` between words, so that `''` is a word. -/
  word : Option String
  words : Array String
  deriving DecidableEq, Repr

namespace Scanner

def start : Scanner := ⟨.bare, none, #[]⟩

def enter (m : Mode) (s : Scanner) : Scanner := { s with mode := m }

/-- Begin a word unless one is being read. -/
def openWord (s : Scanner) : Scanner := { s with word := some (s.word.getD "") }

def push (c : Char) (s : Scanner) : Scanner := { s with word := some ((s.word.getD "").push c) }

def endWord (s : Scanner) : Scanner :=
  match s.word with
  | none => s
  | some w => { s with word := none, words := s.words.push w }

/-- One character outside quotes, with no backslash or dollar sign pending. -/
def readBare (c : Char) (s : Scanner) : Scanner :=
  if c = '\'' then s.openWord.enter .single
  else if c = '"' then s.openWord.enter .double
  else if c = '\\' then s.enter .bareEscape
  else if c = '$' then s.enter .dollar
  else if isBlank c then s.endWord
  else s.push c

/-- One character in `$'…'`, with nothing pending. -/
def readAnsi (c : Char) (s : Scanner) : Scanner :=
  if c = '\'' then s.enter .bare
  else if c = '\\' then s.enter .ansiEscape
  else s.push c

/-- The character after a backslash in `$'…'`. An unknown escape keeps its backslash. -/
def readAnsiEscape (c : Char) (s : Scanner) : Scanner :=
  if c = 'n' then (s.push '\n').enter .ansi
  else if c = 't' then (s.push '\t').enter .ansi
  else if c = 'r' then (s.push '\r').enter .ansi
  else if c = '0' then (s.push '\x00').enter .ansi
  else if c = 'x' then s.enter (.codePoint .byte [])
  else if c = 'u' then s.enter (.codePoint .short [])
  else if c = 'U' then s.enter (.codePoint .long [])
  else if c = '\\' ∨ c = '\'' ∨ c = '"' ∨ c = '?' then (s.push c).enter .ansi
  else ((s.push '\\').push c).enter .ansi

/-- The text of a code point escape: the character, or the escape itself if it names none. -/
def codePointText (form : CodePointForm) (digits : List Char) : List Char :=
  match (hexNumber? digits).bind charOf? with
  | some c => [c]
  | none => '\\' :: form.letter :: digits

def endCodePoint (form : CodePointForm) (digits : List Char) (s : Scanner) : Scanner :=
  ((codePointText form digits).foldl (fun s c => s.push c) s).enter .ansi

def step (s : Scanner) (c : Char) : Scanner :=
  match s.mode with
  | .bare => s.readBare c
  | .bareEscape =>
    if c = '\n' then s.endWord.enter .bare
    else if c = '\r' then s.enter .bareReturn
    else (s.push c).enter .bare
  | .bareReturn =>
    if c = '\n' then s.endWord.enter .bare
    else ((s.push '\r').enter .bare).readBare c
  | .dollar =>
    if c = '\'' then s.openWord.enter .ansi
    else ((s.push '$').enter .bare).readBare c
  | .single => if c = '\'' then s.enter .bare else s.push c
  | .double =>
    if c = '"' then s.enter .bare
    else if c = '\\' then s.enter .doubleEscape
    else s.push c
  | .doubleEscape =>
    if c = '"' ∨ c = '\\' ∨ c = '\x60' ∨ c = '$' then (s.push c).enter .double
    else if c = '\n' then s.enter .double
    else ((s.push '\\').push c).enter .double
  | .ansi => s.readAnsi c
  | .ansiEscape => s.readAnsiEscape c
  | .codePoint form digits =>
    if isHexDigit c ∧ digits.length < form.maxDigits then
      s.enter (.codePoint form (digits ++ [c]))
    else (s.endCodePoint form digits).readAnsi c

/-- What is pending when the text ends stands for itself. -/
def settle (s : Scanner) : Scanner :=
  match s.mode with
  | .bareEscape | .doubleEscape | .ansiEscape => s.push '\\'
  | .bareReturn => s.push '\r'
  | .dollar => s.push '$'
  | .codePoint form digits => s.endCodePoint form digits
  | .bare | .single | .double | .ansi => s

/-- The words of the whole text, the last one ended by the end of the text. -/
def finish (s : Scanner) : List String := s.settle.endWord.words.toList

end Scanner

/-- Read a stretch of text. -/
def scan (s : Scanner) (text : List Char) : Scanner := text.foldl Scanner.step s

@[simp] theorem scan_nil (s : Scanner) : scan s [] = s := rfl
@[simp] theorem scan_cons (s : Scanner) (c : Char) (r : List Char) :
    scan s (c :: r) = scan (s.step c) r := rfl
theorem scan_append (s : Scanner) (a b : List Char) :
    scan s (a ++ b) = scan (scan s a) b := List.foldl_append

/-- The words of a command line. -/
def words (text : String) : List String := (scan .start text.toList).finish

end CurlCode.Shell

import CurlCode.Text.Pieces

/-!
The options of the program and what is said when they are misused. A number is read from
left to right, and the first digit that is wrong or too much is reported.
-/
namespace CurlCode.Cli

inductive Format where
  | code | json | debug
  deriving DecidableEq, Repr

def Format.of? : String → Option Format
  | "code" => some .code
  | "json" => some .json
  | "debug" => some .debug
  | _ => none

structure Options where
  file : Option String := none
  raw : Option String := none
  targets : List String := []
  all : Bool := false
  format : Format := .code
  pretty : Bool := false
  listTargets : Bool := false
  save : Option String := none
  execute : Bool := false
  timeoutSeconds : Nat := 30
  noRedirects : Bool := false
  inputBytes : Nat := 65536
  headers : Nat := 128
  deriving DecidableEq, Repr

/-- An option without a value. -/
inductive Switch where
  | all | pretty | listTargets | execute | noRedirects | help | version
  deriving DecidableEq, Repr

/-- An option with a value, or the file argument. -/
inductive Setting where
  | file | raw | target | format | save | timeout | inputBytes | headers
  deriving DecidableEq, Repr

inductive Argument where
  | switch (w : Switch)
  | setting (x : Setting)
  deriving DecidableEq, Repr

namespace Argument

def table : List (Argument × Option Char × String) :=
  [(.setting .raw, none, "raw"), (.setting .target, some 't', "target"),
    (.switch .all, none, "all"), (.setting .format, some 'f', "format"),
    (.switch .pretty, some 'p', "pretty"), (.switch .listTargets, none, "list-targets"),
    (.setting .save, none, "save"), (.switch .execute, none, "execute"),
    (.setting .timeout, none, "timeout"), (.switch .noRedirects, none, "no-redirects"),
    (.setting .inputBytes, none, "max-input-len"), (.setting .headers, none, "max-headers"),
    (.switch .help, some 'h', "help"), (.switch .version, some 'V', "version")]

def ofLong? (name : String) : Option Argument :=
  (table.find? fun row => row.2.2 = name).map Prod.fst

def ofShort? (c : Char) : Option Argument :=
  (table.find? fun row => row.2.1 = some c).map Prod.fst

def short? (a : Argument) : Option Char :=
  (table.find? fun row => row.1 = a).bind fun row => row.2.1

def long (a : Argument) : String :=
  ((table.find? fun row => row.1 = a).map fun row => row.2.2).getD ""

def valueName : Setting → String
  | .file => "FILE"
  | .raw => "RAW"
  | .target => "ID"
  | .format => "FORMAT"
  | .save => "DIR"
  | .timeout => "TIMEOUT"
  | .inputBytes => "MAX_INPUT_LEN"
  | .headers => "MAX_HEADERS"

/-- The argument as messages name it. -/
def usage : Argument → String
  | .setting .file => "[FILE]"
  | .setting x => "--" ++ long (.setting x) ++ " <" ++ valueName x ++ ">"
  | .switch w => "--" ++ long (.switch w)

end Argument

inductive NumberError where
  | empty | digit | tooLarge
  deriving DecidableEq, Repr

def NumberError.message : NumberError → String
  | .empty => "cannot parse integer from empty string"
  | .digit => "invalid digit found in string"
  | .tooLarge => "number too large to fit in target type"

/-- The largest number of 64 bits. -/
def largestNumber : Nat := 0xFFFFFFFFFFFFFFFF

/-- A number followed by digits. -/
def readDigits (n : Nat) : List Char → Except NumberError Nat
  | [] => .ok n
  | c :: cs =>
    if !c.isDigit then .error .digit
    else
      let m := 10 * n + (c.toNat - '0'.toNat)
      if largestNumber < m then .error .tooLarge else readDigits m cs

def readNumber (s : String) : Except NumberError Nat :=
  match s.toList with
  | [] => .error .empty
  | ['+'] => .error .digit
  | '+' :: cs => readDigits 0 cs
  | cs => readDigits 0 cs

inductive UsageError where
  | unexpected (argument : String)
  | missingValue (x : Setting)
  | unneededValue (w : Switch) (value : String)
  | repeated (a : Argument)
  | invalidFormat (value : String)
  | invalidNumber (x : Setting) (value : String) (cause : NumberError)
  | conflict (a b : Argument)
  deriving DecidableEq, Repr

def UsageError.message : UsageError → String
  | .unexpected argument => "unexpected argument '" ++ argument ++ "' found"
  | .missingValue x =>
    "a value is required for '" ++ Argument.usage (.setting x) ++ "' but none was supplied"
  | .unneededValue w value =>
    "unexpected value '" ++ value ++ "' for '" ++ Argument.usage (.switch w)
      ++ "' found; no more were expected"
  | .repeated a => "the argument '" ++ a.usage ++ "' cannot be used multiple times"
  | .invalidFormat value =>
    "invalid value '" ++ value ++ "' for '" ++ Argument.usage (.setting .format) ++ "'"
  | .invalidNumber x value cause =>
    "invalid value '" ++ value ++ "' for '" ++ Argument.usage (.setting x) ++ "': "
      ++ cause.message
  | .conflict a b => "the argument '" ++ a.usage ++ "' cannot be used with '" ++ b.usage ++ "'"

namespace Options

/-- Set the value of a setting. -/
def put (x : Setting) (value : String) (o : Options) : Except UsageError Options :=
  let number : Except UsageError Nat := (readNumber value).mapError (.invalidNumber x value)
  match x with
  | .file => if value = "" then .error (.missingValue x) else .ok { o with file := some value }
  | .raw => .ok { o with raw := some value }
  | .target => .ok { o with targets := o.targets ++ [value] }
  | .format =>
    match Format.of? value with
    | some f => .ok { o with format := f }
    | none => .error (if value = "" then .missingValue x else .invalidFormat value)
  | .save => if value = "" then .error (.missingValue x) else .ok { o with save := some value }
  | .timeout => number.map fun n => { o with timeoutSeconds := n }
  | .inputBytes => number.map fun n => { o with inputBytes := n }
  | .headers => number.map fun n => { o with headers := n }

def turnOn (w : Switch) (o : Options) : Options :=
  match w with
  | .all => { o with all := true }
  | .pretty => { o with pretty := true }
  | .listTargets => { o with listTargets := true }
  | .execute => { o with execute := true }
  | .noRedirects => { o with noRedirects := true }
  | .help | .version => o

end Options

end CurlCode.Cli

import CurlCode.Cli.Options

/-!
Reading the arguments of the program. `--name value` and `--name=value` are the same, and
so are `-n value`, `-nvalue` and `-n=value`; short switches may share a dash. The value
of a setting stays pending until the next argument has been recognised, so an unknown
argument is reported before a bad value in front of it.
-/
namespace CurlCode.Cli

open Text

/-- What ends the reading before all is read. -/
inductive Stop where
  | usage (e : UsageError)
  /-- A request for help, in full or as a summary. -/
  | help (full : Bool)
  | version
  deriving DecidableEq, Repr

structure Scan where
  options : Options
  /-- The arguments that have been taken in, in order. -/
  given : List Argument
  /-- A setting whose value has to follow, or has not been looked at. -/
  pending : Option (Setting × Option String)
  /-- After `--`, every argument is a file. -/
  filesOnly : Bool
  deriving DecidableEq, Repr

namespace Scan

def start : Scan := ⟨{}, [], none, false⟩

/-- Take in the value of a setting. Only targets may be given more than once. -/
def store (x : Setting) (value : String) (s : Scan) : Except Stop Scan :=
  if x ≠ .target ∧ .setting x ∈ s.given then .error (.usage (.repeated (.setting x)))
  else
    match s.options.put x value with
    | .ok o => .ok { s with options := o, given := s.given ++ [.setting x] }
    | .error e => .error (.usage e)

/-- Take in what is pending. -/
def settle (s : Scan) : Except Stop Scan :=
  match s.pending with
  | none => .ok s
  | some (x, none) => .error (.usage (.missingValue x))
  | some (x, some value) => { s with pending := none }.store x value

def turnOn (full : Bool) (w : Switch) (s : Scan) : Except Stop Scan := do
  let s ← s.settle
  match w with
  | .help => throw (.help full)
  | .version => throw .version
  | _ =>
    if .switch w ∈ s.given then throw (.usage (.repeated (.switch w)))
    else return { s with options := s.options.turnOn w, given := s.given ++ [.switch w] }

/-- A setting with the value attached to it, or one whose value has to follow. -/
def begin (x : Setting) (attached : Option String) (s : Scan) : Except Stop Scan := do
  let s ← s.settle
  match attached with
  | some value => s.store x value
  | none => return { s with pending := some (x, none) }

/-- What follows `--`. -/
def readLong (body : List Char) (s : Scan) : Except Stop Scan :=
  let (name, value) := match cut? '=' body with
    | some (a, b) => (String.ofList a, some (String.ofList b))
    | none => (String.ofList body, none)
  match Argument.ofLong? name, value with
  | none, _ => .error (.usage (.unexpected ("--" ++ name)))
  | some (.setting x), _ => s.begin x value
  | some (.switch w), some v => .error (.usage (.unneededValue w v))
  | some (.switch w), none => s.turnOn true w

/-- What follows a single dash. -/
def readShort : List Char → Scan → Except Stop Scan
  | [], s => .ok s
  | c :: rest, s =>
    match Argument.ofShort? c with
    | none => .error (.usage (.unexpected (String.ofList ['-', c])))
    | some (.switch w) => do readShort rest (← s.turnOn false w)
    | some (.setting x) =>
      match rest with
      | [] => s.begin x none
      | '=' :: value => s.begin x (some (String.ofList value))
      | value => s.begin x (some (String.ofList value))

def hasFile (s : Scan) : Bool :=
  .setting .file ∈ s.given ∨ (s.pending.map Prod.fst) = some .file

def readFile (argument : String) (s : Scan) : Except Stop Scan := do
  if s.hasFile then throw (.usage (.unexpected argument))
  let s ← s.settle
  return { s with pending := some (.file, some argument) }

def read (s : Scan) (argument : String) : Except Stop Scan :=
  if s.filesOnly then s.readFile argument
  else
    match argument.toList with
    | ['-', '-'] => .ok { s with filesOnly := true }
    | '-' :: '-' :: body => s.readLong body
    | '-' :: c :: rest => s.readShort (c :: rest)
    | _ =>
      match s.pending with
      | some (x, none) => .ok { s with pending := some (x, some argument) }
      | _ => s.readFile argument

/-- All targets and some targets do not go together; the one given first is blamed. -/
def conflict? (s : Scan) : Option UsageError :=
  match s.given.filter fun a => a = .switch .all ∨ a = .setting .target with
  | a :: rest => (rest.find? fun b => b ≠ a).map (UsageError.conflict a)
  | [] => none

def finish (s : Scan) : Except Stop Options := do
  let s ← s.settle
  match s.conflict? with
  | some e => throw (.usage e)
  | none =>
    return if s.options.targets = [] then { s.options with targets := ["python"] } else s.options

end Scan

def readArguments (arguments : List String) : Except Stop Options := do
  (← arguments.foldlM Scan.read .start).finish

end CurlCode.Cli

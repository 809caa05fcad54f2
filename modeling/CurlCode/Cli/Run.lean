import CurlCode.Cli.Arguments
import CurlCode.Cli.Disk
import CurlCode.Cli.Help
import CurlCode.Http.Session
import CurlCode.Registry
import CurlCode.Report

/-!
A run of the program. All that is printed for the command itself is made first, as a
draft; only then are files saved, and only after that is the request sent. So what comes
later cannot change what came before.
-/
namespace CurlCode.Cli

open Text

structure Outcome where
  code : Nat
  stdout : String
  /-- The messages of the program itself; its log is no part of them. -/
  stderr : String
  /-- The requests that went out. -/
  sent : List Http.Delivery
  deriving DecidableEq, Repr

/-- A run that fails before it prints anything. -/
def Outcome.failure (code : Nat) (message : String) : Outcome := ⟨code, "", message ++ "\n", []⟩

def Outcome.success (stdout : String) : Outcome := ⟨0, stdout, "", []⟩

def Stop.outcome : Stop → Outcome
  | .usage e => .failure 2 ("error: " ++ e.message)
  | .help full => .success (if full then Help.full else Help.summary)
  | .version => .success Help.versionLine

/-- What standard input is connected to. -/
inductive StandardInput where
  | terminal
  /-- A file or another program, with what it holds or writes. -/
  | stream (content : List UInt8)
  deriving DecidableEq, Repr

instance : Coe (List UInt8) StandardInput := ⟨.stream⟩

/-- Where the command line comes from. -/
inductive InputSource where
  | text (s : String)
  | file (path : String)
  | standardInput
  deriving DecidableEq, Repr

/-- Text on the command line goes before a file, and a file before standard input. -/
def Options.source (o : Options) : InputSource :=
  match o.raw, o.file with
  | some s, _ => .text s
  | none, some path => .file path
  | none, none => .standardInput

def Options.limits (o : Options) : Limits := ⟨o.inputBytes, o.headers⟩

def Options.settings (o : Options) : Http.Settings :=
  { timeoutMilliseconds := 1000 * o.timeoutSeconds, followRedirects := !o.noRedirects }

/-- What is printed for the command, and what is still to be done. -/
structure Draft where
  stdout : String
  request : Request
  /-- The folder to save to, with the files. -/
  save : Option (String × List (String × String))
  deriving DecidableEq, Repr

def headed (e : Emission) : String := "// ---- " ++ e.target ++ " ----\n" ++ e.code

/-- One program as it is, or several under headings. -/
def programs : List Emission → String
  | [e] => e.code
  | es => String.intercalate "\n" (es.map headed)

/-- The files for some programs. Those that share an extension also carry their ids. -/
def files (es : List Emission) : List (String × String) :=
  es.map fun e =>
    let sharing := es.filter fun f => f.extension = e.extension
    (e.fileName (if 1 < sharing.length then "request-" ++ e.target else "request"), e.code)

/-- The programs that were asked for, or the first target that there is none for. -/
def Options.generate (o : Options) (r : Request) : Except EmitError (List Emission) :=
  if o.all then .ok (Registry.builtin.emitAll r) else o.targets.mapM (Registry.builtin.emit r)

def Options.draft (o : Options) (c : Command) : Except Outcome Draft :=
  match o.format with
  | .json => .ok ⟨c.jsonText o.pretty ++ "\n", c.request, none⟩
  | .debug => .ok ⟨c.debugText, c.request, none⟩
  | .code =>
    match o.generate c.request with
    | .ok es => .ok ⟨programs es, c.request, o.save.map fun dir => (dir, files es)⟩
    | .error e => .error (.failure 3 ("Error: " ++ e.message))

/-- The text of bytes that were read, or what went wrong. -/
def inputText (bytes : Except SystemError (List UInt8)) : Except String String :=
  match bytes with
  | .error e => .error e.message
  | .ok bytes =>
    match ofUtf8? bytes with
    | some s => .ok s
    | none => .error "stream did not contain valid UTF-8"

/-- The text that the options name, or what went wrong with it. Nobody has to type a command at
a terminal: none is read from there. -/
def Options.input? (o : Options) (disk : Disk) (standardInput : StandardInput) :
    Option (Except String String) :=
  match o.source, standardInput with
  | .text s, _ => some (.ok s)
  | .file path, _ => some (inputText (disk.read (.of path)))
  | .standardInput, .stream content => some (inputText (.ok content))
  | .standardInput, .terminal => none

/-- The draft for an input. -/
def Options.compile (o : Options) (input : Except String String) : Except Outcome Draft :=
  match input with
  | .error e => .error (.failure 1 ("Error reading input: " ++ e))
  | .ok text =>
    if text.toList.all isBlank then .error (.failure 1 "Error: empty input")
    else
      match Command.parse o.limits text with
      | .error e => .error (.failure 2 ("Parse error: " ++ e.message))
      | .ok c => o.draft c

/-- The end of a run, once the files are saved or not. -/
def Options.conclude [Idna] [Http.Wire] (o : Options) (d : Draft) (saved : Except SystemError Unit)
    (replies : List Http.Reply) : Outcome :=
  match saved with
  | .error e => ⟨1, d.stdout, "Error saving output: " ++ e.message ++ "\n", []⟩
  | .ok () =>
    if !o.execute then .success d.stdout
    else
      let t := Http.execute o.settings false d.request replies
      match t.outcome with
      | .ok response =>
        ⟨0, d.stdout ++ "\n// ---- response ----\n" ++ response.display, "", t.sent⟩
      | .error e => ⟨4, d.stdout, "Execution error: " ++ e.message ++ "\n", t.sent⟩

def listing : Outcome := .success (Target.table Registry.builtin.targets)

/-- What is shown in the place of a run when no command is there to be read. -/
def guidance : Outcome := .success (Help.summary ++ "\n")

/-- A run on a disk, with what standard input is and what the peers reply. -/
def run [Idna] [Http.Wire] (arguments : List String) (disk : Disk)
    (standardInput : StandardInput) (replies : List Http.Reply) : Outcome × Disk :=
  match readArguments arguments with
  | .error stop => (stop.outcome, disk)
  | .ok o =>
    if o.listTargets then (listing, disk)
    else
      match o.input? disk standardInput with
      | none => (guidance, disk)
      | some input =>
        match o.compile input with
        | .error outcome => (outcome, disk)
        | .ok d =>
          let (saved, disk) := match d.save with
            | some (folder, files) => disk.save folder files
            | none => (.ok (), disk)
          (o.conclude d saved replies, disk)

end CurlCode.Cli

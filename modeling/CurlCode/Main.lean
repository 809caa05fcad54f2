import CurlCode.Cli.Run

/-!
The program. Without network access of its own, it finds no peer to send a request to.
-/
namespace CurlCode.Cli

/-- The number of a cause; some calls report it with its sign turned. -/
def causeNumber (n : UInt32) : Nat := min n.toNat (0x100000000 - n.toNat)

def systemError : IO.Error → SystemError
  | .noFileOrDirectory .. => .notFound
  | .alreadyExists .. => .exists
  | .inappropriateType _ number text =>
    match causeNumber number with
    | 20 => .notFolder
    | 21 => .isFolder
    | n => .other text n
  | .permissionDenied _ number _ => .other "Permission denied" (causeNumber number)
  | e => .other (toString e) 0

def attempt {α : Type} (action : IO α) : IO (Except SystemError α) := do
  try return .ok (← action) catch e => return .error (systemError e)

def readSource : InputSource → IO (Except String String)
  | .text s => return .ok s
  | .file path => return inputText (← attempt do return (← IO.FS.readBinFile path).toList)
  | .standardInput =>
    return inputText (← attempt do return (← (← IO.getStdin).readBinToEnd).toList)

def isFolder (path : String) : IO Bool := do
  try (← IO.FS.realPath path).isDir catch _ => return false

/-- Make a folder unless there is one. -/
def makeFolder (path : String) : IO Unit := do
  unless ← isFolder path do IO.FS.createDir path

/-- The folders on the way to one, but for the root and the working folder. -/
def foldersAbove (folder : String) : List String :=
  ((Disk.above (.of folder)).filter fun p => p ≠ [] ∧ p ≠ [""]).map (String.intercalate "/")

/-- A file in the place of a folder above shows when the next folder is made. -/
def makeFolders (folder : String) : IO Unit := do
  for above in foldersAbove folder do
    try makeFolder above
    catch e =>
      match e with
      | .alreadyExists .. => pure ()
      | e => throw e
  makeFolder folder

def saveFiles (folder : String) (files : List (String × String)) :
    IO (Except SystemError Unit) := attempt do
  makeFolders folder
  for (name, content) in files do
    IO.FS.writeFile (folder ++ "/" ++ name) content

/-- The command is only awaited from standard input, and somebody would have to type it there. -/
def awaitsTyping (source : InputSource) : IO Bool :=
  if source = .standardInput then do (← IO.getStdin).isTty else pure false

def perform (arguments : List String) : IO Outcome := do
  match readArguments arguments with
  | .error stop => return stop.outcome
  | .ok o =>
    if o.listTargets then return listing
    if ← awaitsTyping o.source then return guidance
    match o.compile (← readSource o.source) with
    | .error outcome => return outcome
    | .ok d =>
      let saved ← match d.save with
        | some (folder, files) => saveFiles folder files
        | none => pure (.ok ())
      return o.conclude d saved []

end CurlCode.Cli

def main (arguments : List String) : IO UInt32 := do
  let outcome ← CurlCode.Cli.perform arguments
  IO.print outcome.stdout
  IO.eprint outcome.stderr
  return UInt32.ofNat outcome.code

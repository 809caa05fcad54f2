import CurlCode.Text.Pieces
import CurlCode.Text.Utf8

/-!
A disk as far as the program uses one: it reads a file, makes a folder with the folders
above it, and writes files. The working folder and the root always exist.
-/
namespace CurlCode.Cli

open Text

inductive SystemError where
  | notFound | exists | notFolder | isFolder
  /-- Any other cause, by its text and number. -/
  | other (text : String) (number : Nat)
  deriving DecidableEq, Repr

def SystemError.message : SystemError → String
  | .notFound => "No such file or directory (os error 2)"
  | .exists => "File exists (os error 17)"
  | .notFolder => "Not a directory (os error 20)"
  | .isFolder => "Is a directory (os error 21)"
  | .other text number => text ++ " (os error " ++ toString number ++ ")"

/-- The names on the way to a file; a first empty name is the root. -/
abbrev Path := List String

def Path.of (s : String) : Path :=
  match pieces '/' s.toList with
  | [] => []
  | first :: rest =>
    (if first = [] then [""] else if first = ['.'] then [] else [String.ofList first])
      ++ (rest.filter fun n => n ≠ [] ∧ n ≠ ['.']).map String.ofList

inductive DiskEntry where
  | folder
  | file (content : List UInt8)
  deriving DecidableEq, Repr

structure Disk where
  entries : List (Path × DiskEntry)
  deriving DecidableEq, Repr

namespace Disk

def empty : Disk := ⟨[]⟩

def entry? (d : Disk) (p : Path) : Option DiskEntry :=
  if p = [] ∨ p = [""] then some .folder else d.entries.lookup p

def put (p : Path) (e : DiskEntry) (d : Disk) : Disk :=
  ⟨d.entries.filter (fun x => x.1 ≠ p) ++ [(p, e)]⟩

/-- The folders on the way to a path, the outermost first. -/
def above (p : Path) : List Path := (List.range p.length).map fun n => p.take n

/-- What keeps a path from being reached: a missing folder, or a file in a folder's place. -/
def obstacle? (d : Disk) (p : Path) : Option SystemError :=
  (above p).findSome? fun q =>
    match d.entry? q with
    | some .folder => none
    | some (.file _) => some .notFolder
    | none => some .notFound

def read (d : Disk) (p : Path) : Except SystemError (List UInt8) :=
  match d.obstacle? p, d.entry? p with
  | some e, _ => .error e
  | none, some (.file content) => .ok content
  | none, some .folder => .error .isFolder
  | none, none => .error .notFound

/-- Make a folder where there is none; a file in its place is an error. -/
def makeFolder (fault : SystemError) (d : Disk) (p : Path) : Except SystemError Disk :=
  match d.entry? p with
  | some .folder => .ok d
  | some (.file _) => .error fault
  | none => .ok (d.put p .folder)

/-- Make a folder and those above it. -/
def makeFolders (d : Disk) (p : Path) : Except SystemError Disk := do
  let d ← (above p).foldlM (makeFolder .notFolder) d
  makeFolder .exists d p

def write (d : Disk) (p : Path) (content : List UInt8) : Except SystemError Disk :=
  match d.obstacle? p, d.entry? p with
  | some e, _ => .error e
  | none, some .folder => .error .isFolder
  | none, _ => .ok (d.put p (.file content))

/-- Write files into a folder, up to the first that fails. -/
def writeAll (d : Disk) (folder : Path) : List (String × String) → Except SystemError Unit × Disk
  | [] => (.ok (), d)
  | (name, content) :: files =>
    match d.write (folder ++ [name]) (utf8 content) with
    | .ok d => writeAll d folder files
    | .error e => (.error e, d)

/-- Make a folder and write files into it. What was written before a failure stays. -/
def save (d : Disk) (folder : String) (files : List (String × String)) :
    Except SystemError Unit × Disk :=
  match d.makeFolders (.of folder) with
  | .ok d => d.writeAll (.of folder) files
  | .error e => (.error e, d)

end Disk

end CurlCode.Cli

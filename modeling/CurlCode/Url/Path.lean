import CurlCode.Url.Encoding

/-!
Hierarchical paths as lists of segments. A segment `..` takes the one before it away and
`.` adds nothing; either leaves an empty segment if it is the last. In the `file` scheme
a drive letter at the front stays.
-/
namespace CurlCode.Url

open Text

/-- A dot, or its escape in either case. -/
def isDot (s : List Char) : Bool :=
  s == ['.'] || s.map Char.toLower == ['%', '2', 'e']

def isDotDot (s : List Char) : Bool :=
  let t := s.map Char.toLower
  t == ['.', '.'] || t == ['.', '%', '2', 'e'] || t == ['%', '2', 'e', '.']
    || t == ['%', '2', 'e', '%', '2', 'e']

/-- A letter with `:` or `|`. -/
def isDrive : List Char → Bool
  | [c, d] => c.isAlpha && (d == ':' || d == '|')
  | _ => false

/-- The segments without the last one, unless that is a drive in front. -/
def shorten (file : Bool) (path : List String) : List String :=
  match path with
  | [drive] => if file && isDrive drive.toList then path else []
  | _ => path.dropLast

/-- The segment as it is stored after the others. -/
def storeSegment (file : Bool) (path : List String) (s : List Char) : List String :=
  if file && path.isEmpty && isDrive s then path ++ [String.ofList (s.take 1 ++ [':'])]
  else path ++ [encode keepsInPath s]

/-- A segment that another one follows. -/
def addSegment (file : Bool) (path : List String) (s : List Char) : List String :=
  if isDotDot s then shorten file path
  else if isDot s then path
  else storeSegment file path s

def addLastSegment (file : Bool) (path : List String) (s : List Char) : List String :=
  if isDotDot s then shorten file path ++ [""]
  else if isDot s then path ++ [""]
  else storeSegment file path s

/-- Follow a path of one or more segments. -/
def follow (file : Bool) (path : List String) : List (List Char) → List String
  | [] => path
  | [s] => addLastSegment file path s
  | s :: t :: rest => follow file (addSegment file path s) (t :: rest)

end CurlCode.Url

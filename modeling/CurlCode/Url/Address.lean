import CurlCode.Text.Ascii
import CurlCode.Text.Pieces

/-!
IPv4 and IPv6 addresses as hosts are spelled. An IPv4 address has one to four numbers,
decimal, octal after `0` or hexadecimal after `0x`, and the last one fills the bytes that
are left. An IPv6 address has eight groups, of which `::` stands for one or more zeros,
and its last two may be written as four decimal numbers.
-/
namespace CurlCode.Url

open Text

/-- The number that octal digits spell. -/
def octalNumber? (ds : List Char) : Option Nat :=
  if ds.all fun d => '0' ≤ d && d ≤ '7' then
    some (ds.foldl (fun n d => 8 * n + (d.toNat - '0'.toNat)) 0)
  else none

/-- One number of an IPv4 address. Nothing after `0x` is zero. -/
def ipv4Number? : List Char → Option Nat
  | [] => none
  | '0' :: 'x' :: ds | '0' :: 'X' :: ds => if ds.isEmpty then some 0 else hexNumber? ds
  | ['0'] => some 0
  | '0' :: ds => octalNumber? ds
  | ds => decimalNumber? ds

/-- The stretches between dots, without an empty one at the end. -/
def dotted (s : List Char) : List (List Char) :=
  let parts := pieces '.' s
  if parts.getLast? = some [] then parts.dropLast else parts

/-- The host is meant as an IPv4 address: its last part is a number, or digits only. -/
def endsInNumber (s : List Char) : Bool :=
  match (dotted s).getLast? with
  | some last => (!last.isEmpty && last.all Char.isDigit) || (ipv4Number? last).isSome
  | none => false

def ipv4? (s : List Char) : Option UInt32 := do
  let parts := dotted s
  let numbers ← parts.mapM ipv4Number?
  let last ← numbers.getLast?
  let bytes := numbers.dropLast
  let room := Nat.pow 256 (4 - bytes.length)
  if parts.length ≤ 4 ∧ bytes.all (· ≤ 255) ∧ last < room then
    return UInt32.ofNat (bytes.foldl (fun n b => 256 * n + b) 0 * room + last)
  else none

def ipv4Text (a : UInt32) : String :=
  let n := a.toNat
  String.intercalate "."
    [toString (n / 0x1000000), toString (n / 0x10000 % 256), toString (n / 0x100 % 256),
      toString (n % 256)]

/-- A group of one to four hexadecimal digits. -/
def group? (ds : List Char) : Option UInt16 :=
  if ds.length ≤ 4 then (hexNumber? ds).map UInt16.ofNat else none

/-- A decimal number of one byte, without leading zeros. -/
def byte? (ds : List Char) : Option Nat :=
  match decimalNumber? ds with
  | some n => if n ≤ 255 ∧ (ds.head? ≠ some '0' ∨ ds = ['0']) then some n else none
  | none => none

/-- Four decimal numbers as two groups. -/
def dottedGroups? (s : List Char) : Option (List UInt16) := do
  match ← (pieces '.' s).mapM byte? with
  | [a, b, c, d] => return [UInt16.ofNat (256 * a + b), UInt16.ofNat (256 * c + d)]
  | _ => none

/-- The last groups of an address: one group, or two written as decimal numbers. -/
def lastGroups? (s : List Char) : Option (List UInt16) :=
  match group? s with
  | some g => some [g]
  | none => dottedGroups? s

/-- Groups between colons. -/
def groups? (s : List Char) : Option (List UInt16) :=
  if s.isEmpty then some [] else (pieces ':' s).mapM group?

/-- Groups at the end of an address. -/
def finalGroups? (s : List Char) : Option (List UInt16) :=
  if s.isEmpty then some []
  else do
    let parts := pieces ':' s
    return (← parts.dropLast.mapM group?) ++ (← lastGroups? (← parts.getLast?))

/-- The text around the first `::`. -/
def cutColons? : List Char → Option (List Char × List Char)
  | ':' :: ':' :: r => some ([], r)
  | c :: r => (cutColons? r).map fun (a, b) => (c :: a, b)
  | [] => none

/-- The eight groups of an address. -/
def ipv6? (s : List Char) : Option (List UInt16) :=
  match cutColons? s with
  | some (a, b) => do
    let left ← groups? a
    let right ← finalGroups? b
    if left.length + right.length ≤ 7 then
      return left ++ List.replicate (8 - left.length - right.length) 0 ++ right
    else none
  | none => do
    let all ← finalGroups? s
    if all.length = 8 then return all else none

/-- Where the first longest run of zeros starts, and its length. -/
def longestZeros (groups : List UInt16) : Nat × Nat :=
  (List.range groups.length).foldl (fun best i =>
    let run := ((groups.drop i).takeWhile (· == 0)).length
    if best.2 < run then (i, run) else best) (0, 0)

def groupsText (groups : List UInt16) : String :=
  String.intercalate ":" (groups.map fun g => String.ofList (hex g.toNat))

/-- The shortest spelling: the first longest run of two or more zeros becomes `::`. -/
def ipv6Text (groups : List UInt16) : String :=
  let (start, run) := longestZeros groups
  if run < 2 then groupsText groups
  else groupsText (groups.take start) ++ "::" ++ groupsText (groups.drop (start + run))

end CurlCode.Url

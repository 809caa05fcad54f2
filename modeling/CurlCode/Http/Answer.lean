import CurlCode.Http.Response
import CurlCode.Text.Blank
import CurlCode.Text.Pieces
import CurlCode.Text.Utf8

/-!
HTTP/1 responses as bytes. The head is a status line and header lines up to an empty
line; heads of interim responses go before that of the final one. The body ends after its
last chunk, after the announced number of bytes, or with the connection; a body that breaks
off is told apart from one that is complete. A run takes any reader of responses (`Wire`).
-/
namespace CurlCode.Http

open Text

structure Answer where
  status : Nat
  /-- Names in lower case, in order of arrival. -/
  headers : List (String × List UInt8)
  /-- `none` if it broke off or its chunks are ill-formed. -/
  body : Option (List UInt8)
  deriving DecidableEq, Repr

namespace Answer

/-- A line without its end, and what follows; `none` without a line end. -/
def line? : List UInt8 → Option (List UInt8 × List UInt8)
  | [] => none
  | 10 :: r => some ([], r)
  | 13 :: 10 :: r => some ([], r)
  | b :: r => (line? r).map fun (a, rest) => (b :: a, rest)

theorem length_lt_of_line? {s a r : List UInt8} (h : line? s = some (a, r)) :
    r.length < s.length := by
  fun_induction line? s generalizing a with
  | case1 => simp at h
  | case2 s | case3 s =>
    simp only [Option.some.injEq, Prod.mk.injEq] at h
    obtain ⟨-, rfl⟩ := h
    simp only [List.length_cons]
    omega
  | case4 b s h1 h2 ih =>
    obtain ⟨⟨a', r'⟩, hs, heq⟩ := Option.map_eq_some_iff.1 h
    simp only [Prod.mk.injEq] at heq
    obtain ⟨-, rfl⟩ := heq
    have := ih hs
    simp only [List.length_cons]
    omega

/-- The characters of ASCII bytes; other bytes become other characters. -/
def chars (s : List UInt8) : List Char := s.map fun b => Char.ofNat b.toNat

/-- The status of a line such as `HTTP/1.1 200 OK`. -/
def status? (s : List UInt8) : Option Nat :=
  match chars s with
  | 'H' :: 'T' :: 'T' :: 'P' :: '/' :: '1' :: '.' :: v :: ' ' :: a :: b :: c :: rest =>
    if (v = '0' ∨ v = '1') ∧ (rest = [] ∨ rest.head? = some ' ') then
      (decimalNumber? [a, b, c]).bind fun n => if 100 ≤ n then some n else none
    else none
  | _ => none

def isBlankByte (b : UInt8) : Bool := b == 32 || b == 9

def trimBytes (s : List UInt8) : List UInt8 :=
  ((s.dropWhile isBlankByte).reverse.dropWhile isBlankByte).reverse

/-- The name and value of a header line. -/
def header? (s : List UInt8) : Option (String × List UInt8) :=
  let name := s.takeWhile (· ≠ 58)
  let value := s.dropWhile (· ≠ 58)
  if name = [] ∨ value = [] ∨ name.any fun b => b ≤ 32 || 127 ≤ b then none
  else some (lower (String.ofList (chars name)), trimBytes value.tail)

/-- The header lines up to the empty one, and what follows it. -/
def headers? (s : List UInt8) : Option (List (String × List UInt8) × List UInt8) :=
  match _h : line? s with
  | none => none
  | some ([], rest) => some ([], rest)
  | some (l, rest) => do
    let h ← header? l
    let (hs, rest) ← headers? rest
    return (h :: hs, rest)
termination_by s.length
decreasing_by exact length_lt_of_line? _h

/-- The status and the headers, and what follows the head. -/
def head? (s : List UInt8) : Option (Nat × List (String × List UInt8) × List UInt8) := do
  let (statusLine, rest) ← line? s
  let status ← status? statusLine
  let (headers, rest) ← headers? rest
  return (status, headers, rest)

theorem length_le_of_headers? {s r : List UInt8} {hs : List (String × List UInt8)}
    (h : headers? s = some (hs, r)) : r.length ≤ s.length := by
  fun_induction headers? s generalizing hs with
  | case1 => simp at h
  | case2 s rest hline =>
    obtain ⟨-, rfl⟩ : [] = hs ∧ rest = r := by simpa using h
    exact Nat.le_of_lt (length_lt_of_line? hline)
  | case3 s l rest hfilled hline ih =>
    simp only [Option.bind_eq_bind, Option.bind_eq_some_iff] at h
    obtain ⟨field, -, ⟨hs', r'⟩, hrest, heq⟩ := h
    obtain ⟨-, rfl⟩ : field :: hs' = hs ∧ r' = r := by simpa using heq
    exact Nat.le_trans (ih hrest) (Nat.le_of_lt (length_lt_of_line? hline))

theorem length_lt_of_head? {s r : List UInt8} {status : Nat} {hs : List (String × List UInt8)}
    (h : head? s = some (status, hs, r)) : r.length < s.length := by
  simp only [head?, Option.bind_eq_bind, Option.bind_eq_some_iff] at h
  obtain ⟨⟨statusLine, rest⟩, hline, n, -, ⟨hs', r'⟩, hheaders, heq⟩ := h
  obtain ⟨-, -, rfl⟩ : n = status ∧ hs' = hs ∧ r' = r := by simpa using heq
  exact Nat.lt_of_le_of_lt (length_le_of_headers? hheaders) (length_lt_of_line? hline)

/-- The elements of all values of a header, in lower case. -/
def elements (name : String) (hs : List (String × List UInt8)) : List (List Char) :=
  (hs.filter fun h => h.1 = name).flatMap fun h =>
    (pieces ',' (lower (ofUtf8Lossy h.2)).toList).map (trimBy isBlank)

/-- The data of chunks up to the empty one; trailers are left aside. -/
def chunks? (s : List UInt8) : Option (List UInt8) :=
  match _h : line? s with
  | none => none
  | some (size, rest) =>
    match hexNumber? (chars (trimBytes (size.takeWhile (· ≠ 59)))) with
    | none => none
    | some 0 => (headers? rest).map fun _ => []
    | some n =>
      if rest.length < n then none
      else
        match _e : line? (rest.drop n) with
        | some ([], rest') => (chunks? rest').map (rest.take n ++ ·)
        | _ => none
termination_by s.length
decreasing_by
  have h1 := length_lt_of_line? _h
  have h2 := length_lt_of_line? _e
  rw [List.length_drop] at h2
  omega

/-- Where a body ends. -/
inductive Framing where
  /-- There is none, whatever the headers say. -/
  | empty
  | chunked
  | length (n : Nat)
  /-- It ends with the connection. -/
  | rest
  deriving DecidableEq, Repr

/-- A length may be announced several times, but it has to be the same. -/
def framing? (method : String) (status : Nat) (hs : List (String × List UInt8)) :
    Option Framing :=
  if method = "HEAD" ∨ status < 200 ∨ status = 204 ∨ status = 304 then some .empty
  else
    match (elements "transfer-encoding" hs).getLast? with
    | some coding => some (if coding = "chunked".toList then .chunked else .rest)
    | none =>
      match elements "content-length" hs with
      | [] => some .rest
      | length :: more =>
        if more.all (· = length) then (decimalNumber? length).map .length else none

def Framing.body? (rest : List UInt8) : Framing → Option (List UInt8)
  | .empty => some []
  | .chunked => chunks? rest
  | .length n => if rest.length < n then none else some (rest.take n)
  | .rest => some rest

/-- The final response is still to come. A switch of protocols is final. -/
def isInterim (status : Nat) : Bool := status < 200 && status != 101

/-- The answer to a request that the bytes hold; `none` if they are no HTTP response. -/
def ofBytes? (method : String) (s : List UInt8) : Option Answer :=
  match _h : head? s with
  | none => none
  | some (status, headers, rest) =>
    if isInterim status then ofBytes? method rest
    else
      (framing? method status headers).map fun framing =>
        ⟨status, headers, framing.body? rest⟩
termination_by s.length
decreasing_by exact length_lt_of_head? _h

/-- The bytes of an answer with a body of known length. A `HEAD` request gets no body. -/
def toBytes (method : String) (status : Nat) (headers : Headers) (body : List UInt8) :
    List UInt8 :=
  let lengthHeader : Header := ⟨"content-length", toString body.length⟩
  utf8 ("HTTP/1.1 " ++ toString status ++ " \r\n"
      ++ String.join ((headers ++ [lengthHeader]).map fun h =>
        h.name ++ ": " ++ h.value ++ "\r\n")
      ++ "\r\n")
    ++ (if method = "HEAD" then [] else body)

/-- Headers of one name together, where the first of them stands. -/
def grouped (hs : List (String × List UInt8)) : List (String × List UInt8) :=
  (hs.map Prod.fst).eraseDups.flatMap fun name => hs.filter fun h => h.1 = name

/-- The first media type is readable and speaks of JSON. -/
def jsonHint (hs : List (String × List UInt8)) : Bool :=
  match hs.find? fun h => h.1 = "content-type" with
  | some (_, value) =>
    value.all (fun b => b == 9 || (32 ≤ b && b ≤ 126))
      && occursIn "json".toList (lower (String.ofList (chars value))).toList
  | none => false

/-- The response to show; `none` if the body broke off. -/
def toResponse? (a : Answer) : Option Response :=
  a.body.map fun bytes =>
    ⟨a.status, (grouped a.headers).map fun h => ⟨h.1, ofUtf8Lossy h.2⟩,
      .ofText (jsonHint a.headers) (ofUtf8Lossy bytes)⟩

end Answer

/-- How the bytes that come back on a request are taken for its answer; `none` if they are no
HTTP response. -/
class Wire where
  answer? (method : String) (content : List UInt8) : Option Answer

instance (priority := low) Wire.plain : Wire := ⟨Answer.ofBytes?⟩

end CurlCode.Http

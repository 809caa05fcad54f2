import CurlCode.Text.Utf8

/-!
Percent escapes. Encoding writes each byte of a character outside the kept class as
`%XX` in upper case; decoding replaces `%` and two digits of either case and leaves a
malformed escape as it is.
-/
namespace CurlCode.Text

/-- An upper-case hexadecimal digit. -/
def upperHexDigit (n : Nat) : Char := (Nat.digitChar n).toUpper

def percentByte (b : UInt8) : List Char :=
  ['%', upperHexDigit (b.toNat / 16), upperHexDigit (b.toNat % 16)]

/-- Write a character as it is if kept, and as the escapes of its bytes otherwise. -/
def percentChar (keep : Char → Bool) (c : Char) : List Char :=
  if keep c then [c] else (String.utf8EncodeChar c).flatMap percentByte

def percentEncode (keep : Char → Bool) (s : String) : String :=
  String.ofList (s.toList.flatMap (percentChar keep))

/-- The value of an ASCII byte as a hexadecimal digit. -/
def hexByteValue? (b : UInt8) : Option Nat := hexValue? (Char.ofNat b.toNat)

def percentDecode : List UInt8 → List UInt8
  | [] => []
  | b :: h :: l :: bs =>
    if b = 0x25 then
      match hexByteValue? h, hexByteValue? l with
      | some x, some y => UInt8.ofNat (16 * x + y) :: percentDecode bs
      | _, _ => b :: percentDecode (h :: l :: bs)
    else b :: percentDecode (h :: l :: bs)
  | b :: bs => b :: percentDecode bs

end CurlCode.Text

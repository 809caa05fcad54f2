/-!
Blank characters and trimming. A character is blank when it has the Unicode
property `White_Space`, inside ASCII and beyond.
-/
namespace CurlCode.Text

/-- The characters with the Unicode property `White_Space`. -/
def isBlank (c : Char) : Bool :=
  let n := c.toNat
  (0x9 ≤ n && n ≤ 0xD) || n == 0x20 || n == 0x85 || n == 0xA0 || n == 0x1680
    || (0x2000 ≤ n && n ≤ 0x200A) || n == 0x2028 || n == 0x2029 || n == 0x202F
    || n == 0x205F || n == 0x3000

/-- Drop the characters in the class `p` from both ends. -/
def trimBy (p : Char → Bool) (s : List Char) : List Char :=
  ((s.dropWhile p).reverse.dropWhile p).reverse

/-- Drop the blank characters at both ends. -/
def trim (s : String) : String := String.ofList (trimBy isBlank s.toList)

end CurlCode.Text

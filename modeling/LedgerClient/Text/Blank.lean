/-! White space in the sense of Unicode, and its removal at both ends of a text. -/

namespace LedgerClient.Text

/-- The characters with the property White_Space. -/
def isBlank (c : Char) : Bool :=
  let code := c.toNat
  (0x09 ≤ code && code ≤ 0x0D) || code == 0x20 || code == 0x85 || code == 0xA0 ||
    code == 0x1680 || (0x2000 ≤ code && code ≤ 0x200A) || code == 0x2028 || code == 0x2029 ||
    code == 0x202F || code == 0x205F || code == 0x3000

/-- Drops the characters of the class from both ends. -/
def trimBy (class_ : Char → Bool) (text : List Char) : List Char :=
  ((text.dropWhile class_).reverse.dropWhile class_).reverse

def trim (text : List Char) : List Char :=
  trimBy isBlank text

end LedgerClient.Text

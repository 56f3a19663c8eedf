import LedgerClient.Text.Percent
import LedgerClient.Text.Split

/-! Lists of pairs in the form of a query: `key=value`, joined by `&`. A blank is
written as a plus sign. -/

namespace LedgerClient.Form

/-- Letters, digits and four marks stand for themselves. -/
def keeps (octet : UInt8) : Bool :=
  let c := Char.ofNat octet.toNat
  (octet < 128 && c.isAlphanum) || c = '*' || c = '-' || c = '.' || c = '_'

def encodeOctet (octet : UInt8) : List Char :=
  if keeps octet then [Char.ofNat octet.toNat]
  else if octet = 32 then ['+']
  else Percent.spell octet

def encodeText (text : String) : List Char :=
  (Utf8.encode text.toList).flatMap encodeOctet

def encodePair (pair : String × String) : List Char :=
  encodeText pair.1 ++ '=' :: encodeText pair.2

/-- The pairs one after the other. -/
def encode : List (String × String) → List Char
  | [] => []
  | [pair] => encodePair pair
  | pair :: pairs => encodePair pair ++ '&' :: encode pairs

/-- A text with plus signs read as blanks and escapes undone. Octets that are no
text become replacement characters. -/
def decodeText (text : List Char) : String :=
  let blanks := text.map fun c => if c = '+' then ' ' else c
  String.ofList (Utf8.decodeLossy (Percent.decode (Utf8.encode blanks)))

def decodePair (text : List Char) : String × String :=
  (decodeText (text.takeWhile (· ≠ '=')), decodeText ((text.dropWhile (· ≠ '=')).drop 1))

/-- The pairs of a query. Nothing between two marks is no pair. -/
def decode (text : List Char) : List (String × String) :=
  ((Text.splitOn '&' text).filter (· ≠ [])).map decodePair

end LedgerClient.Form

import LedgerClient.Json.Basic
import LedgerClient.Number.Shortest

/-! The text of a value, without any blank. Inside a string only the quote, the
backslash and the controls below the space are escaped. -/

namespace LedgerClient.Json

/-- Floats stand in place between 10⁻⁵ and 10¹⁶; an exponent has a sign. -/
def floatLayout : Shortest.Layout := ⟨-5, 15, true⟩

def integerText (n : Int) : List Char :=
  if n < 0 then '-' :: Nat.toDigits 10 n.natAbs else Nat.toDigits 10 n.natAbs

def floatText (x : Binary64) : List Char := Shortest.text floatLayout x

/-- A control has two hexadecimal digits behind two zeros unless it has a letter. -/
def escaped (c : Char) : List Char :=
  match c with
  | '"' => ['\\', '"']
  | '\\' => ['\\', '\\']
  | '\x08' => ['\\', 'b']
  | '\x0c' => ['\\', 'f']
  | '\n' => ['\\', 'n']
  | '\r' => ['\\', 'r']
  | '\t' => ['\\', 't']
  | _ =>
    if c.toNat < 0x20 then
      ['\\', 'u', '0', '0', Nat.digitChar (c.toNat / 16), Nat.digitChar (c.toNat % 16)]
    else [c]

def stringText (text : String) : List Char :=
  '"' :: (text.toList.flatMap escaped ++ ['"'])

mutual

/-- The text of a value. -/
def text : Json → List Char
  | null => ['n', 'u', 'l', 'l']
  | bool true => ['t', 'r', 'u', 'e']
  | bool false => ['f', 'a', 'l', 's', 'e']
  | integer n => integerText n.val
  | float x => floatText x
  | string s => stringText s
  | array items => '[' :: (itemsText items ++ [']'])
  | object members => '\x7b' :: (membersText members ++ ['\x7d'])

def itemsText : List Json → List Char
  | [] => []
  | [item] => text item
  | item :: items => text item ++ ',' :: itemsText items

def membersText : List (String × Json) → List Char
  | [] => []
  | [(key, value)] => stringText key ++ ':' :: text value
  | (key, value) :: members => stringText key ++ ':' :: (text value ++ ',' :: membersText members)

end

def print (value : Json) : String := String.ofList value.text

end LedgerClient.Json

import LedgerClient.Text.Hidden

/-! A text in double quotes for messages: quotes, backslashes and the common
controls get a backslash, whatever else would not show is spelt by number. -/

namespace LedgerClient.Text

/-- The digits of a number in the base, letters in lower case. -/
def digits (base number : Nat) : String :=
  String.ofList (Nat.toDigits base number)

def quoteChar (c : Char) : String :=
  match c with
  | '\x00' => "\\0"
  | '\t' => "\\t"
  | '\r' => "\\r"
  | '\n' => "\\n"
  | '\\' => "\\\\"
  | '"' => "\\\""
  | _ =>
    if (' ' ≤ c && c ≤ '~') || (c.toNat ≥ 0x80 && !isHidden c) then c.toString
    else "\\u\x7b" ++ digits 16 c.toNat ++ "\x7d"

def quoted (text : String) : String :=
  "\"" ++ String.join (text.toList.map quoteChar) ++ "\""

end LedgerClient.Text

/-! Cutting a text at marks. -/

namespace LedgerClient.Text

/-- The parts of a text between marks; there is always one more than marks. -/
def splitBy (marks : Char → Bool) : List Char → List (List Char)
  | [] => [[]]
  | c :: rest =>
    if marks c then [] :: splitBy marks rest
    else match splitBy marks rest with
      | [] => [[c]]
      | part :: parts => (c :: part) :: parts

def splitOn (mark : Char) (text : List Char) : List (List Char) := splitBy (· = mark) text

end LedgerClient.Text

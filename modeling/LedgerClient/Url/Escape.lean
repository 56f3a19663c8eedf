import LedgerClient.Text.Percent

/-! Which octets stand for themselves in the parts of a URL. Controls and octets
outside ASCII never do. -/

namespace LedgerClient.Url

def visible (octet : UInt8) : Bool := 0x20 ≤ octet && octet < 0x7F

def visibleBut (marks : List Char) (octet : UInt8) : Bool :=
  visible octet && !marks.contains (Char.ofNat octet.toNat)

def keptInFragment : UInt8 → Bool := visibleBut [' ', '"', '<', '>', '`']

def keptInPath : UInt8 → Bool := visibleBut [' ', '"', '<', '>', '`', '#', '?', '\x7b', '\x7d']

/-- In a segment of its own a slash and a percent sign would be misread, and a
backslash where it counts as a slash. -/
def keptInSegment (special : Bool) : UInt8 → Bool :=
  let marks := [' ', '"', '<', '>', '`', '#', '?', '\x7b', '\x7d', '/', '%']
  if special then visibleBut ('\\' :: marks) else visibleBut marks

def keptInUserInfo : UInt8 → Bool :=
  visibleBut [' ', '"', '<', '>', '`', '#', '?', '\x7b', '\x7d', '/', ':', ';', '=', '@', '[', '\\', ']', '^', '|']

def keptInQuery (special : Bool) : UInt8 → Bool :=
  let marks := [' ', '"', '#', '<', '>']
  if special then visibleBut ('\x27' :: marks) else visibleBut marks

/-- Tabs and line ends are nowhere part of a URL. -/
def isDropped (c : Char) : Bool := c = '\t' || c = '\n' || c = '\r'

def dropBreaks (text : List Char) : List Char := text.filter (!isDropped ·)

end LedgerClient.Url

import LedgerClient.Text.Blank
import LedgerClient.Text.Split
import LedgerClient.Text.Utf8

/-! Header fields. Names are compared without regard to case and kept in lower
case; a message may have several values for one name, in an order of their own. -/

namespace LedgerClient

/-- What a header name may consist of, capitals apart. -/
def HeaderName.admits (c : Char) : Bool :=
  c.isDigit || c.isLower || ['!', '#', '$', '%', '&', '\x27', '*', '+', '-', '.', '^', '_', '`', '|', '~'].contains c

structure HeaderName where
  text : String
  valid : text.toList ≠ [] ∧ text.toList.all HeaderName.admits = true
deriving DecidableEq

namespace HeaderName

/-- A name has fewer octets than this. -/
def sizeLimit : Nat := 65536

def parse? (text : String) : Option HeaderName :=
  let lower := text.toList.map Char.toLower
  if h : lower ≠ [] ∧ lower.all HeaderName.admits = true then
    if lower.length < sizeLimit then some ⟨String.ofList lower, by simpa using h⟩ else none
  else none

def accept : HeaderName := ⟨"accept", by decide⟩
def authorization : HeaderName := ⟨"authorization", by decide⟩
def contentLength : HeaderName := ⟨"content-length", by decide⟩
def contentType : HeaderName := ⟨"content-type", by decide⟩
def host : HeaderName := ⟨"host", by decide⟩
def transferEncoding : HeaderName := ⟨"transfer-encoding", by decide⟩
def userAgent : HeaderName := ⟨"user-agent", by decide⟩

end HeaderName

/-- A tab, or an octet that is no control. -/
def HeaderValue.admits (octet : UInt8) : Bool := octet = 9 || (0x20 ≤ octet && octet ≠ 0x7F)

structure HeaderValue where
  text : String
  valid : (Utf8.encode text.toList).all HeaderValue.admits = true
deriving DecidableEq

namespace HeaderValue

def parse? (text : String) : Option HeaderValue :=
  if h : (Utf8.encode text.toList).all HeaderValue.admits = true then some ⟨text, h⟩ else none

/-- Whether the last of the transfer codings in a text is the one that sends a body in
chunks. A text with characters outside ASCII is not looked into. -/
def endsInChunks (text : String) : Bool :=
  let last := Text.trimBy (fun c => c = ' ' || c = '\t') ((Text.splitOn ',' text.toList).getLastD [])
  text.toList.all (fun c => c.toNat < 0x80) && last.map Char.toLower = "chunked".toList

/-- Transfer codings of which the last sends the body in chunks. -/
def inChunks (text : String) : String := if endsInChunks text then text else text ++ ", chunked"

/-- The same of a value. -/
def chunked (value : HeaderValue) : HeaderValue where
  text := inChunks value.text
  valid := by
    rw [inChunks]
    split
    · exact value.valid
    · rw [String.toList_append, Utf8.encode, List.flatMap_append, List.all_append]
      exact Bool.and_eq_true_iff.mpr ⟨value.valid, by decide⟩

end HeaderValue

/-- Fields in the order in which they were added. -/
abbrev Headers := List (HeaderName × HeaderValue)

/-- Changes the last item of a list. -/
def mapLast (f : α → α) : List α → List α
  | [] => []
  | [last] => [f last]
  | first :: second :: rest => first :: mapLast f (second :: rest)

namespace Headers

/-- The values under a name, in order. -/
def values (name : HeaderName) (headers : Headers) : List HeaderValue :=
  (headers.filter (·.1 = name)).map (·.2)

def has (name : HeaderName) (headers : Headers) : Bool := headers.any (·.1 = name)

/-- Puts a single value in the place of all values under a name. -/
def insert (name : HeaderName) (value : HeaderValue) (headers : Headers) : Headers :=
  headers.filter (·.1 ≠ name) ++ [(name, value)]

def append (name : HeaderName) (value : HeaderValue) (headers : Headers) : Headers :=
  headers ++ [(name, value)]

/-- Fields that displace all fields of their names. -/
def replace (headers newer : Headers) : Headers :=
  headers.filter (fun field => !newer.has field.1) ++ newer

/-- Fields that count only for names that have none. -/
def fill (headers defaults : Headers) : Headers :=
  headers ++ defaults.filter fun field => !headers.has field.1

/-- The number that decimal digits stand for, unless it is too large for 64 bits. -/
def lengthOf? (digits : List Char) : Option Nat :=
  let length := Nat.ofDigitChars 10 digits 0
  if digits ≠ [] ∧ digits.all Char.isDigit = true ∧ length < UInt64.size then some length else none

/-- The length that fields declare for a body. A value may be a list; all that is said
has to be one and the same number. -/
def declaredLength? (headers : Headers) : Option Nat := do
  let parts := (headers.values .contentLength).flatMap fun value => Text.splitOn ',' value.text.toList
  let lengths ← parts.mapM fun part => lengthOf? (Text.trimBy (fun c => c = ' ' || c = '\t') part)
  let length ← lengths.head?
  if lengths.all (· = length) then some length else none

/-- What goes out of a body under the fields. A declared length ends it, unless it goes
out in chunks. -/
def framed (headers : Headers) (octets : List UInt8) : List UInt8 :=
  if headers.has .transferEncoding then octets
  else match headers.declaredLength? with
    | some length => octets.take length
    | none => octets

/-- Fields as they go out with a body. The last transfer coding sends the body in chunks;
where there is no body there are no codings. -/
def coded (headers : Headers) (octets : List UInt8) : Headers :=
  headers.filter (·.1 ≠ .transferEncoding) ++
    if octets = [] then []
    else (mapLast HeaderValue.chunked (headers.values .transferEncoding)).map (.transferEncoding, ·)

/-- Fields sorted by name; those of one name keep their order. -/
def sorted (headers : Headers) : List (String × String) :=
  (headers.map fun field => (field.1.text, field.2.text)).mergeSort fun a b => decide (a.1 ≤ b.1)

end Headers
end LedgerClient

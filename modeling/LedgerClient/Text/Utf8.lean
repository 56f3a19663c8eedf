/-! UTF-8 as a machine that takes one octet at a time. A malformed sequence is
reported once for each longest start of a well-formed one, which is how a
replacement character comes to stand for it. -/

namespace LedgerClient.Utf8

/-- The octets of a text. -/
def encode (text : List Char) : List UInt8 :=
  text.flatMap String.utf8EncodeChar

/-- Where the machine stands. Inside a character, `more` octets follow the next
one, which has to lie between `low` and `high`; `bits` holds the bits read. -/
inductive State
  | idle
  | inside (more : Nat) (low high : UInt8) (bits : Nat)
deriving DecidableEq, Repr

/-- The state after the first octet of a longer character, if it is one. The
bounds on the second octet leave out overlong forms, surrogates and numbers
past the last code point. -/
def lead (octet : UInt8) : Option State :=
  if 0xC2 ≤ octet ∧ octet ≤ 0xDF then some (.inside 0 0x80 0xBF (octet.toNat % 32))
  else if octet = 0xE0 then some (.inside 1 0xA0 0xBF 0)
  else if octet = 0xED then some (.inside 1 0x80 0x9F 13)
  else if 0xE1 ≤ octet ∧ octet ≤ 0xEF then some (.inside 1 0x80 0xBF (octet.toNat % 16))
  else if octet = 0xF0 then some (.inside 2 0x90 0xBF 0)
  else if 0xF1 ≤ octet ∧ octet ≤ 0xF3 then some (.inside 2 0x80 0xBF (octet.toNat % 8))
  else if octet = 0xF4 then some (.inside 2 0x80 0x8F 4)
  else none

/-- A first octet: what it completes, and the state behind it. `none` marks a
malformed sequence. -/
def start (octet : UInt8) : List (Option Char) × State :=
  if octet < 0x80 then ([some (Char.ofNat octet.toNat)], .idle)
  else match lead octet with
    | some state => ([], state)
    | none => ([none], .idle)

/-- An octet that does not continue the character ends it as malformed and is
then taken as a first octet. -/
def feed (state : State) (octet : UInt8) : List (Option Char) × State :=
  match state with
  | .idle => start octet
  | .inside more low high bits =>
    if low ≤ octet ∧ octet ≤ high then
      let bits := bits * 64 + octet.toNat % 64
      match more with
      | 0 => ([some (Char.ofNat bits)], .idle)
      | more + 1 => ([], .inside more 0x80 0xBF bits)
    else
      let (pieces, next) := start octet
      (none :: pieces, next)

/-- The characters and malformed sequences of the octets, in order. -/
def pieces (state : State) : List UInt8 → List (Option Char)
  | [] => if state = .idle then [] else [none]
  | octet :: rest => (feed state octet).1 ++ pieces (feed state octet).2 rest

/-- The text of well-formed octets. -/
def decode? (octets : List UInt8) : Option (List Char) :=
  (pieces .idle octets).mapM id

/-- How many octets stand in front of the first malformed sequence. -/
def soundLength (octets : List UInt8) : Nat :=
  (encode (((pieces .idle octets).takeWhile Option.isSome).filterMap id)).length

/-- The text of any octets, with U+FFFD for each malformed sequence. -/
def decodeLossy (octets : List UInt8) : List Char :=
  (pieces .idle octets).map (·.getD '\uFFFD')

end LedgerClient.Utf8

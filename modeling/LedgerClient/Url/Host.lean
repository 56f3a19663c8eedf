import LedgerClient.Text.Percent
import LedgerClient.Text.Split

/-! Hosts of URLs: names, addresses of version 4 in any of their spellings, and
addresses of version 6. Names are those of ASCII. -/

namespace LedgerClient

/-- Why a text is not a URL. -/
inductive UrlFault
  | noScheme
  | emptyHost
  | badName
  | badCharacter
  | badPort
  | badIpv4
  | badIpv6
deriving DecidableEq, Repr

def UrlFault.message : UrlFault → String
  | noScheme => "relative URL without a base"
  | emptyHost => "empty host"
  | badName => "invalid international domain name"
  | badCharacter => "invalid domain character"
  | badPort => "invalid port number"
  | badIpv4 => "invalid IPv4 address"
  | badIpv6 => "invalid IPv6 address"

inductive Host
  | name (text : String)
  | ipv4 (address : Nat)
  | ipv6 (pieces : List Nat)
deriving DecidableEq, Repr

namespace Host

def decimal (n : Nat) : List Char := Nat.toDigits 10 n

def ipv4Text (address : Nat) : List Char :=
  decimal (address / 0x1000000) ++ '.' :: (decimal (address / 0x10000 % 256) ++
    '.' :: (decimal (address / 0x100 % 256) ++ '.' :: decimal (address % 256)))

/-- The zeros at the front of a list. -/
def zeros (pieces : List Nat) : Nat := (pieces.takeWhile (· = 0)).length

/-- Where the longest run of zeros starts, the first of several of one length. -/
def longestZeros (pieces : List Nat) : Nat × Nat :=
  (List.range pieces.length).foldl
    (fun best start => if best.2 < zeros (pieces.drop start) then (start, zeros (pieces.drop start)) else best)
    (0, 0)

def piecesText : List Nat → List Char
  | [] => []
  | [piece] => Nat.toDigits 16 piece
  | piece :: pieces => Nat.toDigits 16 piece ++ ':' :: piecesText pieces

/-- Two colons stand for the longest run of zeros if it has more than one. -/
def ipv6Text (pieces : List Nat) : List Char :=
  let (start, count) := longestZeros pieces
  if count < 2 then piecesText pieces
  else piecesText (pieces.take start) ++ ':' :: ':' :: piecesText (pieces.drop (start + count))

def text : Host → List Char
  | name text => text.toList
  | ipv4 address => ipv4Text address
  | ipv6 pieces => '[' :: (ipv6Text pieces ++ [']'])

def digitOf? (base : Nat) (c : Char) : Option Nat :=
  let value :=
    if '0' ≤ c ∧ c ≤ '9' then some (c.toNat - 48)
    else if 'a' ≤ c ∧ c ≤ 'f' then some (c.toNat - 87)
    else if 'A' ≤ c ∧ c ≤ 'F' then some (c.toNat - 55)
    else none
  value.filter (· < base)

def numberOf? (base : Nat) (text : List Char) : Option Nat :=
  (text.mapM (digitOf? base)).map fun digits => digits.foldl (fun n digit => n * base + digit) 0

/-- A part of an address: decimal, octal behind a zero, or hexadecimal behind
`0x`. Nothing behind such a sign is zero. -/
def ipv4Part? (text : List Char) : Option Nat :=
  match text with
  | [] => none
  | '0' :: 'x' :: rest | '0' :: 'X' :: rest => numberOf? 16 rest
  | '0' :: c :: rest => numberOf? 8 (c :: rest)
  | _ => numberOf? 10 text

/-- The parts of a name; an empty one at the end does not count. -/
def parts (text : List Char) : List (List Char) :=
  match (Text.splitOn '.' text).reverse with
  | [] :: c :: rest => (c :: rest).reverse
  | _ => Text.splitOn '.' text

/-- Whether a name has to be an address because of its last part. -/
def endsInNumber (text : List Char) : Bool :=
  let last := (parts text).getLastD []
  last ≠ [] && (last.all Char.isDigit || (ipv4Part? last).isSome)

/-- All parts but the last are octets, and the last fills what they leave. -/
def ipv4? (text : List Char) : Option Nat := do
  let parts := parts text
  if 4 < parts.length then none
  let numbers ← parts.mapM ipv4Part?
  let front := numbers.dropLast
  let last := numbers.getLastD 0
  if front.any (255 < ·) ∨ Nat.pow 256 (4 - front.length) ≤ last then none
  return (front.foldl (fun (sum, weight) n => (sum + n * weight, weight / 256)) (last, 0x1000000)).1

/-- Four decimal octets without leading zeros. -/
def dotted? (text : List Char) : Option (List Nat) := do
  let octets ← (Text.splitOn '.' text).mapM fun part => do
    let n ← if part = [] then none else numberOf? 10 part
    if 255 < n ∨ (part.head? = some '0' ∧ 1 < part.length) then none else some n
  match octets with
  | [a, b, c, d] => some [a * 256 + b, c * 256 + d]
  | _ => none

def piece? (text : List Char) : Option Nat :=
  if text = [] ∨ 4 < text.length then none else numberOf? 16 text

/-- Pieces with colons between them; octets may stand for the last two. -/
def pieces? (text : List Char) : Option (List Nat) :=
  if text = [] then some []
  else
    let parts := Text.splitOn ':' text
    let last := parts.getLastD []
    if '.' ∈ last then do
      let front ← parts.dropLast.mapM piece?
      return front ++ (← dotted? last)
    else parts.mapM piece?

/-- The texts in front of and behind the first two colons in a row. -/
def atGap : List Char → Option (List Char × List Char)
  | ':' :: ':' :: rest => some ([], rest)
  | c :: rest => (atGap rest).map fun (front, back) => (c :: front, back)
  | [] => none

/-- Two colons stand for one piece or more that are zero. -/
def ipv6? (text : List Char) : Option (List Nat) := do
  match atGap text with
  | none =>
    let pieces ← pieces? text
    if pieces.length = 8 then some pieces else none
  | some (front, back) =>
    let front ← if '.' ∈ front then none else pieces? front
    let back ← pieces? back
    let count := front.length + back.length
    if 7 < count then none else some (front ++ List.replicate (8 - count) 0 ++ back)

def bracketed (text : List Char) : Except UrlFault Host :=
  match text.getLast? with
  | some ']' =>
    match ipv6? text.dropLast with
    | some pieces => .ok (.ipv6 pieces)
    | none => .error .badIpv6
  | _ => .error .badIpv6

/-- What a name must not hold besides controls and blanks. -/
def forbidden : List Char :=
  ['#', '%', '/', ':', '<', '>', '?', '@', '[', '\\', ']', '^', '|']

def fitsName (c : Char) : Bool := 0x20 < c.toNat && c.toNat < 0x7F && !forbidden.contains c

/-- The host of a scheme that is known to have one. Only names in ASCII are taken. The URL
library also takes others and writes them in ASCII, and it refuses labels that begin with
`xn--` but stand for no such name, where here they are labels like any other. -/
def parse (text : List Char) : Except UrlFault Host :=
  match text with
  | '[' :: rest => bracketed rest
  | _ =>
    match Utf8.decode? (Percent.decode (Utf8.encode text)) with
    | none => .error .badName
    | some text =>
      if text.all fitsName then
        let lower := text.map Char.toLower
        if lower = [] then .error .emptyHost
        else if endsInNumber lower then
          match ipv4? lower with
          | some address => .ok (.ipv4 address)
          | none => .error .badIpv4
        else .ok (.name (String.ofList lower))
      else .error .badName

/-- What a host must not hold in any other scheme. -/
def forbiddenBare : List Char :=
  ['\x00', '\t', '\n', '\r', ' ', '#', '/', ':', '<', '>', '?', '@', '[', '\\', ']', '^', '|']

/-- The host of any other scheme, taken as it is. -/
def parseBare (text : List Char) : Except UrlFault Host :=
  match text with
  | '[' :: rest => bracketed rest
  | _ =>
    if text.any forbiddenBare.contains then .error .badCharacter
    else .ok (.name (String.ofList (Percent.encode (fun octet => 0x20 ≤ octet && octet < 0x7F) text)))

end Host
end LedgerClient

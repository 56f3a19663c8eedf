import LedgerClient.Octets.Base32
import LedgerClient.Octets.Sha512
import LedgerClient.Text.Utf8

/-! Addresses of accounts. An address is a public key; its text is the base32
form of the key and of the last octets of the digest of the key. -/

namespace LedgerClient

structure Address where
  octets : List UInt8
  size : octets.length = 32
deriving DecidableEq

namespace Address

def zero : Address := ⟨List.replicate 32 0, by simp⟩

instance : Inhabited Address := ⟨zero⟩

def ofOctets? (octets : List UInt8) : Option Address :=
  if h : octets.length = 32 then some ⟨octets, h⟩ else none

/-- Addresses are ordered as their octets are, the first one that differs deciding. -/
def le (a b : Address) : Bool := decide (a.octets ≤ b.octets)

def checksum (address : Address) : List UInt8 :=
  (Sha512.digest256 address.octets).drop 28

def text (address : Address) : String :=
  String.ofList (Base32.encode (address.octets ++ address.checksum))

/-- How an address is shown to developers. -/
def label (address : Address) : String := "Address(" ++ address.text ++ ")"

/-- How many characters an address has. -/
def textLength : Nat := 58

inductive Fault
  | length (octets : Nat)
  | encoding
  | checksum
deriving DecidableEq, Repr

def Fault.message : Fault → String
  | length octets => "address must be " ++ toString textLength ++ " characters, got " ++ toString octets
  | encoding => "address is not valid base32"
  | checksum => "address checksum does not match"

/-- Letters may be of either case. -/
def parse (text : String) : Except Fault Address :=
  let length := (Utf8.encode text.toList).length
  if length ≠ textLength then .error (.length length)
  else
    match Base32.decode? text.toList with
    | none => .error .encoding
    | some octets =>
      match ofOctets? (octets.take 32) with
      | none => .error .encoding
      | some address =>
        if octets.drop 32 = address.checksum then .ok address else .error .checksum

end Address
end LedgerClient

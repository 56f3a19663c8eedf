import LedgerClient.Json.Parser
import LedgerClient.Octets.Base64

/-! Types that stand in JSON. Each is read in two ways, straight from a text or
from a value that was read before, and written in one. -/

namespace LedgerClient

class Codec (α : Type) where
  /-- Reads the type from a text, in which values may nest as deep as is said. -/
  read : (depth : Nat) → Json.Reader α
  ofJson : Json → Except Json.Misfit α
  write : α → Json

/-- Octets that stand in JSON as base64. -/
structure Bytes where
  octets : List UInt8
deriving DecidableEq, Inhabited, Repr

namespace Codec
open Json Json.Reader

/-- Reads a value of one of the types that a message calls by the given name. -/
def read? (expected : String) (fits : Char → Bool) (reader : Reader α) : Reader α := do
  match ← ahead with
  | none => failAhead .valueEnds
  | some c => if fits c then placed reader else mismatch expected

def amount (number : Json) : Except Misfit UInt64 :=
  match number with
  | .integer n => if n.val < 0 then .error (.value number.kind "u64") else .ok (UInt64.ofNat n.val.toNat)
  | other => .error (.kind other.kind "u64")

def lift : Except Misfit α → Reader α
  | .ok value => pure value
  | .error cause => misfit cause

instance : Codec UInt64 where
  read _ := read? "u64" (fun c => c = '-' || c.isDigit) (do lift (amount (← number)))
  ofJson := amount
  write := .ofUInt64

instance : Codec Bool where
  read _ := read? "a boolean" (fun c => c = 't' || c = 'f') do
    let value ← startingWith (failAhead .noValue) (failAhead .noValue) ((← peek).getD ' ')
    return value = .bool true
  ofJson
    | .bool value => .ok value
    | other => .error (.kind other.kind "a boolean")
  write := .bool

/-- A type whose values stand in JSON as strings of some form. -/
@[reducible] def text (expected : String) (parse : String → Except String α) (print : α → String) : Codec α where
  read _ := read? expected (· = '"') do
    skipOne
    lift ((parse (← string)).mapError .unreadable)
  ofJson
    | .string text => (parse text).mapError .unreadable
    | other => .error (.kind other.kind expected)
  write value := .string (print value)

instance : Codec String := text "a string" .ok id

instance : Codec Bytes :=
  text "a base64 encoded string"
    (fun text => match Base64.decode (Utf8.encode text.toList) with
      | .ok octets => .ok ⟨octets⟩
      | .error fault => .error fault.message)
    fun bytes => String.ofList (Base64.encode bytes.octets)

instance : Codec RawJson where
  read depth := return .ofJson (← value depth)
  ofJson value := .ok (.ofJson value)
  write value := value.json

instance [Codec α] : Codec (Option α) where
  read depth := do
    match ← ahead with
    | some 'n' => skipOne; word ['u', 'l', 'l']; return none
    | _ => return some (← Codec.read depth)
  ofJson
    | .null => .ok none
    | value => return some (← Codec.ofJson value)
  write
    | none => .null
    | some value => Codec.write value

/-- What stands between brackets, at one level less of those that are left. -/
def nested (depth : Nat) (reader : Nat → Reader α) : Reader α :=
  match depth with
  | 0 => failAhead .tooDeep
  | depth + 1 => reader depth

instance [Codec α] : Codec (List α) where
  read depth := read? "a sequence" (· = '[') (nested depth fun depth => list (Codec.read depth))
  ofJson
    | .array items => items.mapM Codec.ofJson
    | other => .error (.kind other.kind "a sequence")
  write values := .array (values.map Codec.write)

instance [Codec α] : Codec (Dictionary α) where
  read depth := read? "a map" (· = '\x7b') <| nested depth fun depth =>
    object (fun key table => do colon; return table.insert key (← Codec.read depth)) .empty
  ofJson
    | .object members => do
      let entries ← members.mapM fun (key, value) => return (key, ← Codec.ofJson value)
      return .ofList entries
    | other => .error (.kind other.kind "a map")
  write table := .object (table.entries.map fun (key, value) => (key, Codec.write value))

end Codec

/-- Reads a whole text. -/
def decode (α : Type) [Codec α] (octets : List UInt8) : Except Json.Error α :=
  (Codec.read Json.Reader.depthLimit).run octets

/-- Reads a text as a value, and the type from the canonical form of that. -/
def decodeThrough (α : Type) [Codec α] (octets : List UInt8) : Except Json.Error α := do
  let value ← Json.parse octets
  (Codec.ofJson value.canonical).mapError fun cause => ⟨.misfit cause, none⟩

def encode [Codec α] (value : α) : String := (Codec.write value).print

end LedgerClient

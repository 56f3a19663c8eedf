import LedgerClient.Json.Scalar

/-! Reading whole values, and passing over values that nobody asks for. A value
that is read may nest to a limited depth; what is passed over may nest to any,
and its strings are not decoded. -/

namespace LedgerClient.Json

namespace Reader

/-- How deep values may nest. -/
def depthLimit : Nat := 127

/-- A value by its first character, with the readers for what follows a bracket. -/
def startingWith (list object : Reader Json) (c : Char) : Reader Json := do
  match c with
  | 'n' => skipOne; word ['u', 'l', 'l']; return .null
  | 't' => skipOne; word ['r', 'u', 'e']; return .bool true
  | 'f' => skipOne; word ['a', 'l', 's', 'e']; return .bool false
  | '"' => skipOne; return .string (← string)
  | '[' => list
  | '\x7b' => object
  | _ => if c = '-' ∨ c.isDigit then number else failAhead .noValue

def list (item : Reader α) : Reader (List α) := do
  skipOne
  enclosed (bounded (items item true)) closeList

/-- The members of an object, taken one after the other into a state. -/
def object (step : String → σ → Reader σ) (state : σ) : Reader σ := do
  skipOne
  enclosed (bounded (members string step true state)) closeObject

def value : (depth : Nat) → Reader Json
  | 0 => start (failAhead .tooDeep) (failAhead .tooDeep)
  | depth + 1 =>
    start (return .array (← list (value depth))) do
      let reversed ← object (fun key members => do colon; return (key, ← value depth) :: members) []
      return .object reversed.reverse
where
  start (list object : Reader Json) : Reader Json := do
    match ← ahead with
    | none => failAhead .valueEnds
    | some c => startingWith list object c

/-- Reads what comes next for the sake of a message that says what was expected
instead. Brackets are left unread. -/
def mismatch (expected : String) : Reader α := placed do
  match ← peek with
  | none => failAhead .valueEnds
  | some '[' => misfit (.kind .sequence expected)
  | some '\x7b' => misfit (.kind .map expected)
  | some c =>
    let found ← startingWith (failAhead .noValue) (failAhead .noValue) c
    misfit (.kind found.kind expected)

def skipString : Nat → Reader Unit
  | 0 => failHere .stringEnds
  | bound + 1 => do
    match ← peek with
    | none => failHere .stringEnds
    | some '"' => skipOne
    | some '\\' =>
      skipOne
      match ← next with
      | none => failHere .stringEnds
      | some 'u' => let _ ← fourHex
      | some c => if c ∈ ['"', '\\', '/', 'b', 'f', 'n', 'r', 't'] then pure () else failHere .badEscape
      skipString bound
    | some c =>
      if c.toNat < 0x20 then failHere .control
      else
        skipOne
        skipString bound

def skipExponent : Reader Unit := do
  let sign ← peek
  if sign = some '+' ∨ sign = some '-' then skipOne
  match ← next with
  | some c => if c.isDigit then do let _ ← digits else failHere .badNumber
  | none => failHere .badNumber

/-- A number behind its sign. -/
def skipNumber : Reader Unit := do
  match ← next with
  | some '0' =>
    match ← peek with
    | some c => if c.isDigit then failAhead .badNumber
    | none => pure ()
  | some c => if c.isDigit then do let _ ← digits else failHere .badNumber
  | none => failHere .badNumber
  match ← peek with
  | some '.' =>
    skipOne
    if (← digits).isEmpty then failAhead .badNumber
    match ← peek with
    | some 'e' | some 'E' => do skipOne; skipExponent
    | _ => pure ()
  | some 'e' | some 'E' => do skipOne; skipExponent
  | _ => pure ()

def skipItems (item : Reader Unit) : Nat → Reader Unit
  | 0 => failAhead .valueEnds
  | bound + 1 => do
    item
    match ← ahead with
    | none => failAhead .listEnds
    | some ']' => skipOne
    | some ',' => do skipOne; skipItems item bound
    | some _ => failAhead .noListComma

def skipMembers (item : Reader Unit) : Nat → Reader Unit
  | 0 => failAhead .objectEnds
  | bound + 1 => do
    match ← ahead with
    | none => failAhead .objectEnds
    | some '"' => skipOne
    | some _ => failAhead .keyNotString
    bounded skipString
    colon
    item
    match ← ahead with
    | none => failAhead .objectEnds
    | some '\x7d' => skipOne
    | some ',' => do skipOne; skipMembers item bound
    | some _ => failAhead .noObjectComma

def skipWithin : Nat → Reader Unit
  | 0 => failAhead .valueEnds
  | bound + 1 => do
    match ← ahead with
    | none => failAhead .valueEnds
    | some 'n' => skipOne; word ['u', 'l', 'l']
    | some 't' => skipOne; word ['r', 'u', 'e']
    | some 'f' => skipOne; word ['a', 'l', 's', 'e']
    | some '"' => skipOne; bounded skipString
    | some '-' => skipOne; skipNumber
    | some '[' =>
      skipOne
      match ← ahead with
      | none => failAhead .listEnds
      | some ']' => skipOne
      | some _ => bounded (skipItems (skipWithin bound))
    | some '\x7b' =>
      skipOne
      match ← ahead with
      | none => failAhead .objectEnds
      | some '\x7d' => skipOne
      | some _ => bounded (skipMembers (skipWithin bound))
    | some c => if c.isDigit then skipNumber else failAhead .noValue

/-- Passes over a value. -/
def skip : Reader Unit := bounded skipWithin

end Reader

/-- The value that a text denotes, members in the order of the text. -/
def parse (octets : List UInt8) : Except Error Json :=
  (Reader.value Reader.depthLimit).run octets

end LedgerClient.Json

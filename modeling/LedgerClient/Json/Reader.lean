import LedgerClient.Json.Fault

/-! Readers of JSON text. A reader takes octets from the front of its input. A
fault leaves the input where the reader stopped, because what encloses the
reader still looks for its closing bracket there. -/

namespace LedgerClient.Json

inductive Outcome (α : Type) where
  | done (value : α) (rest : List UInt8)
  | fault (fault : Fault) (rest : List UInt8)

def Reader (α : Type) : Type := List UInt8 → Outcome α

namespace Reader

instance : Monad Reader where
  pure value := fun rest => .done value rest
  bind reader next := fun rest =>
    match reader rest with
    | .done value rest => next value rest
    | .fault fault rest => .fault fault rest

/-- Fails with a cause that is given its place later. -/
def misfit (cause : Misfit) : Reader α := fun rest => .fault ⟨.misfit cause, none⟩ rest

/-- Fails at the octets taken so far. -/
def failHere (cause : Cause) : Reader α := fun rest => .fault ⟨cause, some rest.length⟩ rest

/-- Fails at the octet that comes next, which belongs to the place. -/
def failAhead (cause : Cause) : Reader α := fun rest => .fault ⟨cause, some (rest.length - 1)⟩ rest

/-- A fault without a place gets the place where the reader stopped. -/
def placed (reader : Reader α) : Reader α := fun rest =>
  match reader rest with
  | .done value rest => .done value rest
  | .fault fault rest => .fault (fault.place rest.length) rest

/-- An octet seen as the character of that number. Only ASCII has a meaning
outside strings. -/
def character (octet : UInt8) : Char := Char.ofNat octet.toNat

def peek : Reader (Option Char) := fun rest => .done (rest.head?.map character) rest

def skipOne : Reader Unit := fun rest => .done () rest.tail

def next : Reader (Option Char) := fun rest => .done (rest.head?.map character) rest.tail

/-- A loop that takes octets can run no more often than there are octets. -/
def bounded (loop : Nat → Reader α) : Reader α := fun rest => loop rest.length rest

def isSpace (octet : UInt8) : Bool :=
  octet = 32 || octet = 10 || octet = 9 || octet = 13

def whitespace : Reader Unit := fun rest => .done () (rest.dropWhile isSpace)

/-- The next character that is not a blank stays unread. -/
def ahead : Reader (Option Char) := do
  whitespace
  peek

/-- The rest of a word whose first letter decided what it is. -/
def word : List Char → Reader Unit
  | [] => pure ()
  | c :: rest => do
    match ← next with
    | none => failHere .valueEnds
    | some d => if d = c then word rest else failHere .badWord

/-- A body between brackets. Whether it succeeds or not, its closing bracket is
looked for; only then does a fault without a place get one. -/
def enclosed (body : Reader α) (close : Reader Unit) : Reader α := fun rest =>
  match body rest with
  | .done value rest =>
    match close rest with
    | .done () rest => .done value rest
    | .fault fault rest => .fault fault rest
  | .fault fault rest =>
    match close rest with
    | .done () rest | .fault _ rest => .fault (fault.place rest.length) rest

def closeList : Reader Unit := do
  match ← ahead with
  | some ']' => skipOne
  | some ',' =>
    skipOne
    match ← ahead with
    | some ']' => failAhead .trailingComma
    | _ => failAhead .trailing
  | some _ => failAhead .trailing
  | none => failAhead .listEnds

def closeObject : Reader Unit := do
  match ← ahead with
  | some '\x7d' => skipOne
  | some ',' => failAhead .trailingComma
  | some _ => failAhead .trailing
  | none => failAhead .objectEnds

/-- Whether a list goes on, at the start of the next item if it does. -/
def moreItems (first : Bool) : Reader Bool := do
  match ← ahead with
  | none => failAhead .listEnds
  | some ']' => pure false
  | some c =>
    if first then pure true
    else if c = ',' then
      skipOne
      match ← ahead with
      | some ']' => failAhead .trailingComma
      | some _ => pure true
      | none => failAhead .valueEnds
    else failAhead .noListComma

/-- Whether an object goes on, behind the quote of the next key if it does. -/
def moreMembers (first : Bool) : Reader Bool := do
  match ← ahead with
  | none => failAhead .objectEnds
  | some '\x7d' => pure false
  | some c =>
    if first then
      if c = '"' then do skipOne; pure true else failAhead .keyNotString
    else if c = ',' then
      skipOne
      match ← ahead with
      | some '"' => do skipOne; pure true
      | some '\x7d' => failAhead .trailingComma
      | some _ => failAhead .keyNotString
      | none => failAhead .valueEnds
    else failAhead .noObjectComma

def colon : Reader Unit := do
  match ← ahead with
  | some ':' => skipOne
  | some _ => failAhead .noColon
  | none => failAhead .objectEnds

/-- The items of a list from where it is asked for more of them. -/
def items (item : Reader α) : (first : Bool) → Nat → Reader (List α)
  | _, 0 => failAhead .listEnds
  | first, bound + 1 => do
    if ← moreItems first then
      let value ← item
      return value :: (← items item false bound)
    else return []

/-- Folds the members of an object; the step starts at the colon behind a key. -/
def members (key : Reader String) (step : String → σ → Reader σ) : (first : Bool) → σ → Nat → Reader σ
  | _, _, 0 => failAhead .objectEnds
  | first, state, bound + 1 => do
    if ← moreMembers first then
      let name ← key
      members key step false (← step name state) bound
    else return state

/-- Reads a whole text, behind which only blanks may stand. -/
def run (reader : Reader α) (octets : List UInt8) : Except Error α :=
  let whole : Reader α := do
    let value ← reader
    match ← ahead with
    | none => pure value
    | some _ => failAhead .trailing
  match whole octets with
  | .done value _ => .ok value
  | .fault fault _ => .error (fault.within octets)

end Reader
end LedgerClient.Json

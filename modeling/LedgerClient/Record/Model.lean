import LedgerClient.Record.Codec

/-! Records with named fields. A record stands in JSON as an object, and may also
be given as a list of its fields in order. Fields that are missing have their
blank value; members that no field has the key of are passed over. -/

namespace LedgerClient

structure Field where
  key : String
  Value : Type
  codec : Codec Value
  blank : Value
  /-- Whether a value is left out when the record is written. -/
  omitted : Value → Bool

namespace Field

def always (key : String) (α : Type) [codec : Codec α] [blank : Inhabited α] : Field :=
  ⟨key, α, codec, blank.default, fun _ => false⟩

/-- A field that is written only when there is something in it. -/
def whenSome (key : String) (α : Type) [Codec α] : Field :=
  ⟨key, Option α, inferInstance, none, Option.isNone⟩

end Field

/-- A value for each field. -/
def Row : List Field → Type
  | [] => Unit
  | field :: fields => field.Value × Row fields

/-- The values that were found so far. -/
def Slots : List Field → Type
  | [] => Unit
  | field :: fields => Option field.Value × Slots fields

namespace Row

def blank : (fields : List Field) → Row fields
  | [] => ()
  | field :: fields => (field.blank, blank fields)

def members : {fields : List Field} → Row fields → List (String × Json)
  | [], _ => []
  | field :: _, row =>
    let rest := members row.2
    if field.omitted row.1 then rest else (field.key, field.codec.write row.1) :: rest

end Row

namespace Slots
open Json Json.Reader

def empty : (fields : List Field) → Slots fields
  | [] => ()
  | _ :: fields => (none, empty fields)

def fill : {fields : List Field} → Slots fields → Row fields
  | [], _ => ()
  | field :: _, slots => (slots.1.getD field.blank, fill slots.2)

/-- A member behind its key. A second member with a key is refused before its
value is looked at. -/
def member (depth : Nat) (key : String) : {fields : List Field} → Slots fields → Reader (Slots fields)
  | [], _ => do colon; skip
  | field :: _, slots =>
    if field.key = key then
      match slots.1 with
      | some _ => misfit (.duplicate key)
      | none => do
        colon
        return (some (← field.codec.read depth), slots.2)
    else return (slots.1, ← member depth key slots.2)

def memberOfJson (key : String) (value : Json) :
    {fields : List Field} → Slots fields → Except Misfit (Slots fields)
  | [], _ => .ok ()
  | field :: _, slots =>
    if field.key = key then
      match slots.1 with
      | some _ => .error (.duplicate key)
      | none => return (some (← field.codec.ofJson value), slots.2)
    else return (slots.1, ← memberOfJson key value slots.2)

end Slots

namespace Row
open Json Json.Reader

/-- The fields from a list, which may end before they do. -/
def items (depth : Nat) : (fields : List Field) → (first : Bool) → Reader (Row fields)
  | [], _ => pure ()
  | field :: fields, first => do
    if ← moreItems first then
      let value ← field.codec.read depth
      return (value, ← items depth fields false)
    else return blank (field :: fields)

def itemsOfJson : (fields : List Field) → List Json → Except Misfit (Row fields)
  | [], _ => .ok ()
  | field :: fields, [] => .ok (blank (field :: fields))
  | field :: fields, value :: values => do
    let value ← field.codec.ofJson value
    return (value, ← itemsOfJson fields values)

/-- A record of the given name, with its number of items if it is given as a list. -/
def read (name : String) (fields : List Field) (depth : Nat) : Reader (Row fields) := do
  Codec.read? ("struct " ++ name) (fun c => c = '[' || c = '\x7b') <| Codec.nested depth fun depth => do
    match ← peek with
    | some '[' => do skipOne; enclosed (items depth fields true) closeList
    | _ => return (← object (fun key slots => Slots.member depth key slots) (Slots.empty fields)).fill

def ofJson (name : String) (fields : List Field) : Json → Except Misfit (Row fields)
  | .array values => do
    let row ← itemsOfJson fields values
    if fields.length < values.length then throw (.length values.length "fewer elements in array")
    return row
  | .object members => do
    let slots ← members.foldlM (fun slots (key, value) => Slots.memberOfJson key value slots) (Slots.empty fields)
    return slots.fill
  | other => .error (.kind other.kind ("struct " ++ name))

end Row

/-- A type that is a record under another name. -/
class Model (α : Type) [Inhabited α] where
  name : String
  fields : List Field
  toRow : α → Row fields
  ofRow : Row fields → α
  ofRow_toRow : ∀ value, ofRow (toRow value) = value := by intro; rfl
  toRow_ofRow : ∀ row, toRow (ofRow row) = row := by intro; rfl
  toRow_default : toRow default = Row.blank fields := by rfl

instance (priority := low) [Inhabited α] [Model α] : Codec α where
  read depth := return Model.ofRow (← Row.read (Model.name α) (Model.fields α) depth)
  ofJson value := return Model.ofRow (← Row.ofJson (Model.name α) (Model.fields α) value)
  write value := .object (Model.toRow value).members

end LedgerClient

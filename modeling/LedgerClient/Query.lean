import LedgerClient.Json.Basic
import LedgerClient.Json.Printer
import LedgerClient.Text.Form

/-! Values as queries. A query is made of the members of an object, none of which
may hold more than a single text, number or truth value. -/

namespace LedgerClient

/-- What a query cannot hold. -/
inductive QueryFault
  | top
  | pair
  | value
deriving DecidableEq, Repr

def QueryFault.message : QueryFault → String
  | top => "top-level serializer supports only maps and structs"
  | pair => "unsupported pair"
  | value => "unsupported value"

namespace Query

/-- Floats stand in place between 10⁻⁵ and 10¹⁶; only negative exponents have a sign. -/
def floatLayout : Shortest.Layout := ⟨-5, 15, false⟩

def valueText : Json → Except QueryFault String
  | .bool true => .ok "true"
  | .bool false => .ok "false"
  | .integer n => .ok (String.ofList (Json.integerText n.val))
  | .float x => .ok (String.ofList (Shortest.text floatLayout x))
  | .string text => .ok text
  | .null | .array _ | .object _ => .error .value

/-- The text of pairs; no pairs make no query. -/
def ofPairs : List (String × String) → Option String
  | [] => none
  | pairs => some (String.ofList (Form.encode pairs))

/-- The query of a value: an object in the order of its keys, or nothing at all. -/
def encode (value : Json) : Except QueryFault (Option String) :=
  match value.canonical with
  | .object members => do
    let pairs ← members.mapM fun (key, value) => return (key, ← valueText value)
    return ofPairs pairs
  | .null => .ok none
  | .array [] => .ok none
  | .array _ => .error .pair
  | .bool _ | .integer _ | .float _ | .string _ => .error .top

end Query
end LedgerClient

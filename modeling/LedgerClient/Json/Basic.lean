import LedgerClient.Dictionary
import LedgerClient.Number.Binary64

/-! Values of JSON. The members of an object keep the order of the text, with
repeated keys; the canonical form of a value sorts them by key and lets the last
of several members with one key stand for all. -/

namespace LedgerClient

/-- Whole numbers that are kept exactly; beyond them a number becomes a float. -/
abbrev Json.Integer := { n : Int // -0x8000000000000000 ≤ n ∧ n < 0x10000000000000000 }

inductive Json
  | null
  | bool (value : Bool)
  | integer (value : Json.Integer)
  | float (value : Binary64)
  | string (value : String)
  | array (items : List Json)
  | object (members : List (String × Json))
deriving Repr

namespace Json

instance : Inhabited Json := ⟨null⟩

def ofUInt64 (n : UInt64) : Json :=
  integer ⟨n.toNat, by have := n.toNat_lt; omega⟩

mutual

def same : Json → Json → Bool
  | null, null => true
  | bool a, bool b => a = b
  | integer a, integer b => a = b
  | float a, float b => a = b
  | string a, string b => a = b
  | array a, array b => sameItems a b
  | object a, object b => sameMembers a b
  | _, _ => false

def sameItems : List Json → List Json → Bool
  | [], [] => true
  | a :: as, b :: bs => same a b && sameItems as bs
  | _, _ => false

def sameMembers : List (String × Json) → List (String × Json) → Bool
  | [], [] => true
  | (k, a) :: as, (l, b) :: bs => k = l && same a b && sameMembers as bs
  | _, _ => false

end

mutual

theorem same_iff : ∀ a b : Json, same a b = true ↔ a = b
  | null, b => by cases b <;> simp [same]
  | bool _, b => by cases b <;> simp [same]
  | integer _, b => by cases b <;> simp [same]
  | float _, b => by cases b <;> simp [same]
  | string _, b => by cases b <;> simp [same]
  | array items, b => by cases b <;> simp [same, sameItems_iff items]
  | object members, b => by cases b <;> simp [same, sameMembers_iff members]

theorem sameItems_iff : ∀ as bs : List Json, sameItems as bs = true ↔ as = bs
  | [], bs => by cases bs <;> simp [sameItems]
  | a :: as, bs => by cases bs <;> simp [sameItems, same_iff a, sameItems_iff as]

theorem sameMembers_iff : ∀ as bs : List (String × Json), sameMembers as bs = true ↔ as = bs
  | [], bs => by cases bs <;> simp [sameMembers]
  | (k, a) :: as, bs => by
    cases bs with
    | nil => simp [sameMembers]
    | cons b bs => obtain ⟨l, b⟩ := b; simp [sameMembers, same_iff a, sameMembers_iff as, and_assoc]

end

instance : DecidableEq Json := fun a b => decidable_of_iff _ (same_iff a b)

mutual

def canonical : Json → Json
  | array items => array (canonicalItems items)
  | object members => object (Entries.ascending (canonicalMembers members))
  | value => value

def canonicalItems : List Json → List Json
  | [] => []
  | item :: items => canonical item :: canonicalItems items

def canonicalMembers : List (String × Json) → List (String × Json)
  | [] => []
  | (key, value) :: members => (key, canonical value) :: canonicalMembers members

end

theorem canonicalMembers_eq_map (members : List (String × Json)) :
    canonicalMembers members = members.map fun member => (member.1, canonical member.2) := by
  induction members with
  | nil => rfl
  | cons member members ih => obtain ⟨key, value⟩ := member; simp [canonicalMembers, ih]

mutual

theorem canonical_canonical : ∀ value : Json, canonical (canonical value) = canonical value
  | null | bool _ | integer _ | float _ | string _ => by simp [canonical]
  | array items => by simp [canonical, canonicalItems_canonicalItems items]
  | object members => by
    have stable := canonicalMembers_canonicalMembers members
    simp only [canonicalMembers_eq_map] at stable
    simp only [canonical, canonicalMembers_eq_map, ← Entries.ascending_map, stable]
    rw [Entries.ascending_of_ascending (Entries.ascending_ascending _)]

theorem canonicalItems_canonicalItems : ∀ items : List Json,
    canonicalItems (canonicalItems items) = canonicalItems items
  | [] => rfl
  | item :: items => by
    simp [canonicalItems, canonical_canonical item, canonicalItems_canonicalItems items]

theorem canonicalMembers_canonicalMembers : ∀ members : List (String × Json),
    canonicalMembers (canonicalMembers members) = canonicalMembers members
  | [] => rfl
  | (key, value) :: members => by
    simp [canonicalMembers, canonical_canonical value, canonicalMembers_canonicalMembers members]

end

end Json

/-- A value kept as it is, in canonical form. -/
structure RawJson where
  json : Json
  canonical : json.canonical = json
deriving DecidableEq

namespace RawJson

instance : Inhabited RawJson := ⟨⟨.null, by simp [Json.canonical]⟩⟩

def ofJson (value : Json) : RawJson :=
  ⟨value.canonical, value.canonical_canonical⟩

end RawJson
end LedgerClient

import LedgerClient.Proofs.PrintedValues
import LedgerClient.Proofs.RecordReading

/-! Records of the library are decoded from any object that holds them, in whatever order
and among whatever else, but from none in which one of their keys stands twice. -/

namespace LedgerClient.Catalogue
open Json.Grammar Json.Reader

namespace Entry
variable (entry : Entry)

def keys : List String := entry.fields.map Field.key

def decode (octets : List UInt8) : Except Json.Error entry.Record :=
  letI := entry.blank
  letI := entry.model
  LedgerClient.decode entry.Record octets

def toRow (record : entry.Record) : Row entry.fields :=
  letI := entry.blank
  letI := entry.model
  Model.toRow record

def ofRow (row : Row entry.fields) : entry.Record :=
  letI := entry.blank
  letI := entry.model
  Model.ofRow row

def default : entry.Record := entry.blank.default

theorem toRow_ofRow (row : Row entry.fields) : entry.toRow (entry.ofRow row) = row :=
  letI := entry.blank
  letI := entry.model
  Model.toRow_ofRow row

theorem toRow_default : entry.toRow entry.default = Row.blank entry.fields :=
  letI := entry.blank
  letI := entry.model
  Model.toRow_default

/-- How deep the value of a field may nest when the record is not part of another. -/
def depth (_ : Entry) : Nat := depthLimit - 1

/-- The value of every member that has the key of a field decodes for the field. -/
def Decodes (members : List (String × List UInt8)) : Prop :=
  ∀ field ∈ entry.fields, ∀ text, (field.key, text) ∈ members →
    ∃ value, (field.codec.read entry.depth).run text = .ok value

end Entry

theorem keys_nodup : ∀ entry ∈ entries, entry.keys.Nodup := by
  decide +kernel

theorem exists_replaces {entry : Entry} {members : List (String × List UInt8)}
    (distinct : Distinct entry.keys members) (decodes : entry.Decodes members) :
    ∃ record, (entry.toRow record).Replaces entry.depth members (entry.toRow entry.default) := by
  obtain ⟨row, replaces⟩ := Row.exists_replaces
    (fun field taken text other => distinct.unique (List.mem_map_of_mem taken)) decodes (entry.toRow entry.default)
  refine ⟨entry.ofRow row, ?_⟩
  rwa [entry.toRow_ofRow]

section
variable {entry : Entry} (listed : entry ∈ entries) {members : List (String × List UInt8)} {octets : List UInt8}
  (object : Object members octets)
include listed object

theorem decode_of_replaces (distinct : Distinct entry.keys members) {record : entry.Record}
    (replaces : (entry.toRow record).Replaces entry.depth members (entry.toRow entry.default)) :
    entry.decode octets = .ok record :=
  letI := entry.blank
  letI := entry.model
  run_of_reads (reads_record (local_of_mem entry listed) (keys_nodup entry listed) object distinct replaces)

theorem distinct_of_decode {record : entry.Record} (read : entry.decode octets = .ok record) :
    Distinct entry.keys members := by
  let := entry.blank
  let := entry.model
  have fits := local_of_mem entry listed
  have reads := reads_of_run ((Codec.local_model fits).reads depthLimit) read
  obtain ⟨blank, _, read⟩ := reads [] nofun
  obtain ⟨row, _, read, _⟩ := bind_eq_done.mp read
  exact Row.distinct_of_read _ fits (keys_nodup entry listed) object read

end

/-- The text of an object decodes to the default record with the values that stand under its
keys, if none of these stands twice and every value decodes for its field. To the same record
decode all objects with the same members under its keys, in whatever order and with whatever
under other keys, and those that lack a member whose value is that of the default. -/
theorem decode_object {entry : Entry} (listed : entry ∈ entries) {members : List (String × List UInt8)}
    {octets : List UInt8} (object : Object members octets) :
    (Distinct entry.keys members → entry.Decodes members → ∃ record, entry.decode octets = .ok record ∧
      (entry.toRow record).Replaces entry.depth members (entry.toRow entry.default) ∧
      (∀ others text, (known entry.keys others).Perm (known entry.keys members) → Object others text →
        entry.decode text = .ok record) ∧
      ∀ field ∈ entry.fields, ∀ front back value text, members = front ++ (field.key, value) :: back →
        (field.codec.read entry.depth).run value = .ok field.blank → Object (front ++ back) text →
        entry.decode text = .ok record) ∧
    (¬Distinct entry.keys members → ∃ fault, entry.decode octets = .error fault) := by
  constructor
  · intro distinct decodes
    obtain ⟨record, replaces⟩ := exists_replaces distinct decodes
    refine ⟨record, decode_of_replaces listed object distinct replaces, replaces,
      fun others text same rearranged => ?_,
      fun field taken front back value text same holds removed => ?_⟩
    · exact decode_of_replaces listed rearranged (distinct.rearranged same) (replaces.rearranged same)
    · subst same
      obtain ⟨absent, fewer⟩ := distinct.removed
      refine decode_of_replaces listed removed fewer ?_
      rw [entry.toRow_default] at replaces ⊢
      exact replaces.removed (keys_nodup entry listed) taken (absent (List.mem_map_of_mem taken)) holds
  · intro twice
    cases read : entry.decode octets with
    | error fault => exact ⟨fault, rfl⟩
    | ok record => exact absurd (distinct_of_decode listed object read) twice

/-- Members in another order and among others, and a key that stands twice. -/
theorem decode_object_tealKeyValue :
    (∃ record, (Entry.of TealKeyValue).decode
        (Utf8.encode "\x7b\"value\":\x7b\"uint\":7\x7d,\"zz\":[\x7b\x7d],\"key\":\"a\"\x7d".toList) = .ok record ∧
      (Entry.of TealKeyValue).decode (Utf8.encode "\x7b\"key\":\"a\",\"value\":\x7b\"uint\":7\x7d\x7d".toList) =
        .ok record) ∧
    ∃ fault, (Entry.of TealKeyValue).decode (Utf8.encode "\x7b\"key\":\"a\",\"key\":\"a\"\x7d".toList) =
      .error fault := by
  have listed : Entry.of TealKeyValue ∈ entries := .tail _ (.tail _ (.tail _ (.head _)))
  let value : Json := .object [("uint", .integer ⟨7, by decide⟩)]
  let key : Json := .string "a"
  let other : Json := .array [.object []]
  have object (members : List (String × Json)) (sound : ∀ member ∈ members, member.2.floatless = true) :
      Object (members.map fun member => (member.1, member.2.printed)) (Json.printed (.object members)) :=
    object_printed fun member among => text_printed member.2 (sound member among)
  have decodes : (Entry.of TealKeyValue).Decodes
      ([("value", value), ("zz", other), ("key", key)].map fun member => (member.1, member.2.printed)) := by
    refine List.forall_mem_cons.mpr ⟨fun text among => ?_, List.forall_mem_cons.mpr ⟨fun text among => ?_, nofun⟩⟩
    · obtain rfl : text = key.printed := by simpa [Field.always] using among
      exact ⟨"a", rfl⟩
    · obtain rfl : text = value.printed := by simpa [Field.always] using among
      exact ⟨⟨"", 0, 7⟩, rfl⟩
  constructor
  · obtain ⟨record, read, _, rearranged, _⟩ := (decode_object listed
      (object [("value", value), ("zz", other), ("key", key)] (by decide))).1 (by decide) decodes
    have same := object [("key", key), ("value", value)] (by decide)
    exact ⟨record, read, rearranged _ _ (by decide) same⟩
  · exact (decode_object listed (object [("key", key), ("key", key)] (by decide))).2 (by decide)

end LedgerClient.Catalogue

import LedgerClient.Proofs.ObjectReading
import LedgerClient.Proofs.RecordLocality

/-! What a record is read to from an object. Each field has what stands under its key, or
what it has by default; neither the order of the members nor members under other keys matter.
An object in which a key of the record stands twice is refused. -/

namespace LedgerClient
open Json Json.Reader Json.Grammar

/-- No member has the key. -/
def Absent (key : String) (members : List (String × List UInt8)) : Prop := ∀ text, (key, text) ∉ members

/-- The members that have one of the keys. -/
def known (keys : List String) (members : List (String × List UInt8)) : List (String × List UInt8) :=
  members.filter fun member => member.1 ∈ keys

/-- None of the keys stands twice. -/
def Distinct (keys : List String) (members : List (String × List UInt8)) : Prop :=
  ((known keys members).map Prod.fst).Nodup

instance (keys : List String) (members : List (String × List UInt8)) : Decidable (Distinct keys members) :=
  inferInstanceAs (Decidable (List.Nodup _))

namespace Row

/-- The row is the other one with the values that stand under the keys of its fields. -/
def Replaces (depth : Nat) (members : List (String × List UInt8)) :
    {fields : List Field} → (row base : Row fields) → Prop
  | [], _, _ => True
  | field :: _, row, base =>
    (∀ text, (field.key, text) ∈ members → (field.codec.read depth).run text = .ok row.1) ∧
      (Absent field.key members → row.1 = base.1) ∧ Replaces depth members row.2 base.2

end Row

section
variable {key : String} {text : List UInt8} {members : List (String × List UInt8)} {keys : List String}

private theorem absent_nil : Absent key [] := fun _ => List.not_mem_nil

private theorem absent_cons {other : String} :
    Absent key ((other, text) :: members) ↔ key ≠ other ∧ Absent key members := by
  constructor
  · exact fun absent => ⟨fun same => absent text (same ▸ List.mem_cons_self),
      fun text among => absent text (List.mem_cons_of_mem _ among)⟩
  · rintro ⟨different, absent⟩ text among
    obtain same | among := List.mem_cons.mp among
    · exact different (congrArg Prod.fst same)
    · exact absent text among

private theorem mem_known (taken : key ∈ keys) : (key, text) ∈ known keys members ↔ (key, text) ∈ members := by
  rw [known, List.mem_filter, decide_eq_true_iff, and_iff_left taken]

private theorem distinct_cons : Distinct keys ((key, text) :: members) ↔
    (key ∈ keys → Absent key members) ∧ Distinct keys members := by
  by_cases taken : key ∈ keys
  · have absent : key ∉ (known keys members).map Prod.fst ↔ Absent key members := by
      simp only [List.mem_map, not_exists, not_and, Prod.forall, Absent]
      exact ⟨fun other text among => other key text ((mem_known taken).mpr among) rfl,
        fun absent _ text among same => absent text ((mem_known taken).mp (same ▸ among))⟩
    rw [Distinct, known, List.filter_cons_of_pos (by simpa using taken), List.map_cons, List.nodup_cons]
    exact and_congr (absent.trans (imp_iff_right taken).symm) Iff.rfl
  · rw [Distinct, known, List.filter_cons_of_neg (by simpa using taken)]
    exact (and_iff_right fun inside => absurd inside taken).symm

theorem Distinct.unique (distinct : Distinct keys members) (taken : key ∈ keys) {text other : List UInt8}
    (first : (key, text) ∈ members) (second : (key, other) ∈ members) : text = other := by
  induction members with
  | nil => cases first
  | cons member members ih =>
    obtain ⟨alone, distinct⟩ := distinct_cons.mp distinct
    rcases List.mem_cons.mp first with rfl | first'
    · rcases List.mem_cons.mp second with same | second'
      · cases same
        rfl
      · exact absurd second' (alone taken other)
    · rcases List.mem_cons.mp second with rfl | second'
      · exact absurd first' (alone taken text)
      · exact ih distinct first' second'

end

namespace Slots
variable {key : String} {text : List UInt8} {members : List (String × List UInt8)} {depth : Nat}

/-- The members that are left fill the slots up to the row. -/
def Leads (depth : Nat) (members : List (String × List UInt8)) :
    {fields : List Field} → Slots fields → Row fields → Prop
  | [], _, _ => True
  | field :: _, slots, row =>
    (match slots.1 with
    | some value => value = row.1 ∧ Absent field.key members
    | none => (∀ text, (field.key, text) ∈ members → (field.codec.read depth).run text = .ok row.1) ∧
        (Absent field.key members → row.1 = field.blank)) ∧ Leads depth members slots.2 row.2

private theorem Leads.of_replaces : {fields : List Field} → {row : Row fields} →
    row.Replaces depth members (Row.blank fields) → Leads depth members (empty fields) row
  | [], _, _ => trivial
  | _ :: _, _, ⟨here, absent, others⟩ => ⟨⟨here, absent⟩, .of_replaces others⟩

private theorem Leads.fill : {fields : List Field} → {slots : Slots fields} → {row : Row fields} →
    Leads depth [] slots row → slots.fill = row
  | [], _, _, _ => rfl
  | _ :: _, (some _, _), (_, _), ⟨⟨same, _⟩, others⟩ => Prod.ext same others.fill
  | _ :: _, (none, _), (_, _), ⟨⟨_, blank⟩, others⟩ => Prod.ext (blank absent_nil).symm others.fill

/-- A member under another key plays no part. -/
theorem Leads.other : {fields : List Field} → {slots : Slots fields} → {row : Row fields} →
    key ∉ fields.map Field.key → Leads depth ((key, text) :: members) slots row → Leads depth members slots row
  | [], _, _, _, _ => trivial
  | field :: fields, slots, row, other, ⟨here, others⟩ => by
    rw [List.map_cons, List.mem_cons, not_or] at other
    refine ⟨?_, others.other other.2⟩
    split
    next value found =>
      rw [found] at here
      exact ⟨here.1, (absent_cons.mp here.2).2⟩
    next found =>
      rw [found] at here
      exact ⟨fun text among => here.1 text (List.mem_cons_of_mem _ among),
        fun absent => here.2 (absent_cons.mpr ⟨Ne.symm other.1, absent⟩)⟩

/-- A step takes a member that leads to the row. -/
theorem reads_member : {fields : List Field} → LocalFields fields → (fields.map Field.key).Nodup → Text text →
    (key ∈ fields.map Field.key → Absent key members) → {slots : Slots fields} → {row : Row fields} →
    Leads depth ((key, text) :: members) slots row → ∃ next, Leads depth members next row ∧
      ∀ between, Blank between → Reads (member depth key slots) (between ++ 58 :: text) next
  | [], _, _, value, _, _, _, _ => ⟨(), trivial, fun _ blank => (reads_skip value).colon blank⟩
  | field :: fields, fits, apart, value, alone, (slot, rest), row, ⟨here, others⟩ => by
    obtain ⟨first, apart⟩ := List.nodup_cons.mp apart
    by_cases same : field.key = key
    · cases slot with
      | some value => exact absurd same (absent_cons.mp here.2).1
      | none =>
        subst same
        refine ⟨(some row.1, rest), ⟨⟨rfl, alone List.mem_cons_self⟩, others.other first⟩, fun between blank => ?_⟩
        rw [member_here rfl]
        exact ((reads_of_run (fits.head.reads depth) (here.1 text List.mem_cons_self)).map _).colon blank
    · obtain ⟨next, leads, reads⟩ := reads_member fits.tail apart value
        (fun taken => alone (List.mem_cons_of_mem _ taken)) others
      refine ⟨(slot, next), ⟨?_, leads⟩, fun between blank => ?_⟩
      · cases slot with
        | some value => exact ⟨here.1, (absent_cons.mp here.2).2⟩
        | none =>
          exact ⟨fun text among => here.1 text (List.mem_cons_of_mem _ among),
            fun absent => here.2 (absent_cons.mpr ⟨same, absent⟩)⟩
      · rw [member_other same]
        exact (reads between blank).map _

/-- No member has the key of a slot that is filled. -/
def Room (members : List (String × List UInt8)) : {fields : List Field} → Slots fields → Prop
  | [], _ => True
  | field :: _, slots => (slots.1.isSome → Absent field.key members) ∧ Room members slots.2

private theorem room_nil : {fields : List Field} → (slots : Slots fields) → Room [] slots
  | [], _ => trivial
  | _ :: _, slots => ⟨fun _ => absent_nil, room_nil slots.2⟩

private theorem Room.other : {fields : List Field} → {slots : Slots fields} → key ∉ fields.map Field.key →
    Room members slots → Room ((key, text) :: members) slots
  | [], _, _, _ => trivial
  | field :: _, _, other, ⟨here, others⟩ => by
    rw [List.map_cons, List.mem_cons, not_or] at other
    exact ⟨fun filled => absent_cons.mpr ⟨Ne.symm other.1, here filled⟩, others.other other.2⟩

/-- A step fills the slot of its key, which was not filled. -/
theorem room_of_member : {fields : List Field} → (fields.map Field.key).Nodup → {slots next : Slots fields} →
    {input left : List UInt8} → member depth key slots input = .done next left → Room members next →
    (key ∈ fields.map Field.key → Absent key members) ∧ Room ((key, text) :: members) slots
  | [], _, _, _, _, _, _, _ => ⟨nofun, trivial⟩
  | field :: fields, apart, (slot, rest), next, input, left, read, ⟨here, others⟩ => by
    obtain ⟨first, apart⟩ := List.nodup_cons.mp apart
    by_cases same : field.key = key
    · cases slot with
      | some value =>
        rw [member_again same] at read
        exact absurd read (fails_misfit _ _ _ _)
      | none =>
        subst same
        rw [member_here rfl] at read
        obtain ⟨_, _, _, read⟩ := bind_eq_done.mp read
        obtain ⟨value, _, _, done⟩ := bind_eq_done.mp read
        cases done
        exact ⟨fun _ => here rfl, nofun, others.other first⟩
    · rw [member_other same] at read
      obtain ⟨next, _, step, done⟩ := bind_eq_done.mp read
      cases done
      obtain ⟨alone, room⟩ := room_of_member apart step others
      refine ⟨fun taken => alone ?_, fun filled => absent_cons.mpr ⟨same, here filled⟩, room⟩
      exact (List.mem_cons.mp taken).resolve_left (Ne.symm same)

end Slots

namespace Row
variable {members : List (String × List UInt8)} {octets : List UInt8} {depth : Nat} {fields : List Field}

theorem read_braces (name : String) {before input left : List UInt8} (front : Blank before) {row : Row fields} :
    read name fields (depth + 1) (before ++ 123 :: input) = .done row left ↔
      ∃ slots, object (fun key slots => Slots.member depth key slots) (Slots.empty fields) (123 :: input) =
        .done slots left ∧ slots.fill = row := by
  have brace : read name fields (depth + 1) (before ++ 123 :: input) =
      placed (object (fun key slots => Slots.member depth key slots) (Slots.empty fields) >>= fun slots =>
        pure slots.fill) (123 :: input) :=
    ahead_of_next (Next.behind front rfl input) _
  rw [brace, Codec.placed_eq_done, bind_eq_done]
  constructor
  · rintro ⟨slots, _, read, done⟩
    cases done
    exact ⟨slots, read, rfl⟩
  · rintro ⟨slots, read, rfl⟩
    exact ⟨slots, left, read, rfl⟩

theorem reads_object (name : String) (fits : LocalFields fields) (apart : (fields.map Field.key).Nodup)
    (object : Object members octets) (distinct : Distinct (fields.map Field.key) members) {row : Row fields}
    (replaces : row.Replaces depth members (blank fields)) : Reads (read name fields (depth + 1)) octets row := by
  intro rest ends
  cases object with
  | @braces _ _ after front sound back =>
    obtain ⟨slots, ⟨_, leads⟩, read⟩ := object_of_steps
      (fun members slots => Distinct (fields.map Field.key) members ∧ Slots.Leads depth members slots row)
      (fun key text members slots value ⟨distinct, leads⟩ => by
        obtain ⟨alone, distinct⟩ := distinct_cons.mp distinct
        obtain ⟨next, leads, reads⟩ := Slots.reads_member fits apart value alone leads
        exact ⟨next, ⟨distinct, leads⟩, reads⟩)
      sound ⟨distinct, .of_replaces replaces⟩ (after ++ rest)
    refine ⟨after, back, ?_⟩
    simp only [List.append_assoc, List.cons_append]
    exact (read_braces name front).mpr ⟨slots, read, leads.fill⟩

theorem distinct_of_read (name : String) (fits : LocalFields fields) (apart : (fields.map Field.key).Nodup)
    (object : Object members octets) {rest left : List UInt8} {row : Row fields}
    (read : read name fields (depth + 1) (octets ++ rest) = .done row left) :
    Distinct (fields.map Field.key) members := by
  cases object with
  | braces front sound back =>
    simp only [List.append_assoc, List.cons_append] at read
    obtain ⟨slots, read, _⟩ := (read_braces name front).mp read
    refine (holds_of_object
      (fun members slots => Distinct (fields.map Field.key) members ∧ Slots.Room members slots)
      (fun key slots => Slots.passes_member fits depth key slots)
      (fun slots => ⟨List.nodup_nil, Slots.room_nil slots⟩)
      (fun key text between tail members slots next left _ _ _ step ⟨distinct, room⟩ => ?_) sound read).1
    obtain ⟨alone, room⟩ := Slots.room_of_member apart step room
    exact ⟨distinct_cons.mpr ⟨alone, distinct⟩, room⟩

/-- If every value decodes for its field there is such a row. -/
theorem exists_replaces : {fields : List Field} →
    (∀ field ∈ fields, ∀ text other, (field.key, text) ∈ members → (field.key, other) ∈ members → text = other) →
    (∀ field ∈ fields, ∀ text, (field.key, text) ∈ members → ∃ value, (field.codec.read depth).run text = .ok value) →
    (base : Row fields) → ∃ row : Row fields, row.Replaces depth members base
  | [], _, _, _ => ⟨(), trivial⟩
  | field :: fields, unique, decodes, base => by
    obtain ⟨single, unique⟩ := List.forall_mem_cons.mp unique
    obtain ⟨decodes, others⟩ := List.forall_mem_cons.mp decodes
    obtain ⟨row, replaces⟩ := exists_replaces unique others base.2
    by_cases absent : Absent field.key members
    · exact ⟨(base.1, row), fun text among => absurd among (absent text), fun _ => rfl, replaces⟩
    · obtain ⟨text, among⟩ := Classical.not_forall_not.mp absent
      obtain ⟨value, read⟩ := decodes text among
      refine ⟨(value, row), fun other among' => ?_, fun none => absurd none absent, replaces⟩
      cases single text other among among'
      exact read

/-- Only members under the keys of the fields matter. -/
theorem Replaces.congr {others : List (String × List UInt8)} : {fields : List Field} → {row base : Row fields} →
    (∀ field ∈ fields, ∀ text, (field.key, text) ∈ others ↔ (field.key, text) ∈ members) →
    row.Replaces depth members base → row.Replaces depth others base
  | [], _, _, _, _ => trivial
  | field :: fields, row, base, same, ⟨here, absent, replaces⟩ => by
    obtain ⟨first, same⟩ := List.forall_mem_cons.mp same
    exact ⟨fun text among => here text ((first text).mp among),
      fun none => absent fun text among => none text ((first text).mpr among), replaces.congr same⟩

private theorem mem_known_field {field : Field} (taken : field ∈ fields) {text : List UInt8} :
    (field.key, text) ∈ known (fields.map Field.key) members ↔ (field.key, text) ∈ members :=
  mem_known (List.mem_map_of_mem taken)

theorem Replaces.rearranged {others : List (String × List UInt8)} {row base : Row fields}
    (same : (known (fields.map Field.key) others).Perm (known (fields.map Field.key) members))
    (replaces : row.Replaces depth members base) : row.Replaces depth others base :=
  replaces.congr fun field taken text => by
    rw [← mem_known_field taken, same.mem_iff, mem_known_field taken]

/-- A member may be left out if what stands under its key is the blank of the field. -/
theorem Replaces.removed {front back : List (String × List UInt8)} {text : List UInt8} :
    {fields : List Field} → {row : Row fields} → {field : Field} → (fields.map Field.key).Nodup → field ∈ fields →
    Absent field.key (front ++ back) → (field.codec.read depth).run text = .ok field.blank →
    row.Replaces depth (front ++ (field.key, text) :: back) (blank fields) →
    row.Replaces depth (front ++ back) (blank fields)
  | first :: fields, row, field, apart, taken, absent, holds, ⟨here, otherwise, replaces⟩ => by
    obtain ⟨different, apart⟩ := List.nodup_cons.mp apart
    have same : ∀ key, key ≠ field.key → ∀ other,
        (key, other) ∈ front ++ back ↔ (key, other) ∈ front ++ (field.key, text) :: back := by
      intro key differs other
      have outside : (key, other) ≠ (field.key, text) := fun same => differs (congrArg Prod.fst same)
      simp only [List.mem_append, List.mem_cons, outside, false_or]
    rcases List.mem_cons.mp taken with rfl | taken
    · refine ⟨fun text among => absurd among (absent text), fun _ => ?_, replaces.congr fun other among => same _ ?_⟩
      · have held := here text (List.mem_append_right _ List.mem_cons_self)
        rw [holds] at held
        exact (Except.ok.inj held).symm
      · exact fun equal => different (equal ▸ List.mem_map_of_mem among)
    · have differs : first.key ≠ field.key := fun equal => different (equal ▸ List.mem_map_of_mem taken)
      exact ⟨fun text among => here text ((same _ differs text).mp among),
        fun none => otherwise fun text among => none text ((same _ differs text).mpr among),
        replaces.removed apart taken absent holds⟩

end Row

theorem Distinct.rearranged {keys : List String} {members others : List (String × List UInt8)}
    (same : (known keys others).Perm (known keys members)) (distinct : Distinct keys members) :
    Distinct keys others :=
  (same.map Prod.fst).nodup_iff.mpr distinct

theorem Distinct.removed {keys : List String} {front back : List (String × List UInt8)} {key : String}
    {text : List UInt8} (distinct : Distinct keys (front ++ (key, text) :: back)) :
    (key ∈ keys → Absent key (front ++ back)) ∧ Distinct keys (front ++ back) :=
  distinct_cons.mp (distinct.rearranged (List.perm_middle.symm.filter _))

section
variable [Inhabited α] [Model α] {members : List (String × List UInt8)} {octets : List UInt8}

def Model.keys (α : Type) [Inhabited α] [Model α] : List String := (Model.fields α).map Field.key

theorem reads_record {depth : Nat} (fits : LocalFields (Model.fields α)) (apart : (Model.keys α).Nodup)
    (object : Object members octets) (distinct : Distinct (Model.keys α) members) {value : α}
    (replaces : (Model.toRow value).Replaces depth members (Model.toRow default)) :
    Reads (Codec.read (depth + 1)) octets value := by
  rw [Model.toRow_default] at replaces
  have reads := (Row.reads_object (Model.name α) fits apart object distinct replaces).map Model.ofRow
  rwa [Model.ofRow_toRow] at reads

end
end LedgerClient

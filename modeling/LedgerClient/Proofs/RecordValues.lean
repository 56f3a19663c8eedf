import LedgerClient.Proofs.HeaderFields
import LedgerClient.Proofs.RecordForms
import LedgerClient.Proofs.Tables

/-! What a record is decoded to from a value. A list gives the first fields their values, and
in an object each field has what stands under its key. A key that stands once still does in
the canonical form of the object. -/

namespace LedgerClient

theorem mapM_eq_ok {step : α → Except ε β} {items : List α} {values : List β} :
    items.mapM step = .ok values ↔ items.Forall₂ (fun item value => step item = .ok value) values := by
  induction items generalizing values with
  | nil =>
    rw [List.mapM_nil, List.forall₂_nil_left_iff]
    exact ⟨fun done => (Except.ok.inj done).symm, fun same => congrArg Except.ok same.symm⟩
  | cons item items ih =>
    rw [List.mapM_cons, List.forall₂_cons_left_iff, bind_eq_ok]
    constructor
    · rintro ⟨value, first, done⟩
      obtain ⟨others, rest, done⟩ := bind_eq_ok.mp done
      cases done
      exact ⟨value, others, first, ih.mp rest, rfl⟩
    · rintro ⟨value, others, first, rest, rfl⟩
      exact ⟨value, first, bind_eq_ok.mpr ⟨others, ih.mpr rest, rfl⟩⟩

open Json

namespace Slots
variable {field : Field} {fields : List Field} {key : String} {value : Json} {entries : List (String × Json)}

private theorem memberOfJson_here (same : field.key = key) (value : Json) (rest : Slots fields) :
    @memberOfJson key value (field :: fields) (none, rest) = (do return (some (← field.codec.ofJson value), rest)) :=
  if_pos same

private theorem memberOfJson_again (same : field.key = key) (value : Json) (found : field.Value) (rest : Slots fields) :
    @memberOfJson key value (field :: fields) (some found, rest) = .error (.duplicate key) :=
  if_pos same

private theorem memberOfJson_other (other : field.key ≠ key) (value : Json) (slot : Option field.Value)
    (rest : Slots fields) :
    @memberOfJson key value (field :: fields) (slot, rest) = (do return (slot, ← memberOfJson key value rest)) :=
  if_neg other

private theorem memberOfJson_unknown : {fields : List Field} → {slots : Slots fields} → key ∉ fields.map Field.key →
    memberOfJson key value slots = .ok slots
  | [], _, _ => rfl
  | field :: fields, (slot, rest), other => by
    rw [List.map_cons, List.mem_cons, not_or] at other
    rw [memberOfJson_other (Ne.symm other.1), memberOfJson_unknown other.2]
    rfl

/-- The slots after the members of an object that was read before. -/
def takeAll (entries : List (String × Json)) {fields : List Field} (slots : Slots fields) :
    Except Misfit (Slots fields) :=
  entries.foldlM (fun slots entry => memberOfJson entry.1 entry.2 slots) slots

/-- What the members make of the slot of a field, if its key stands once at most. -/
def Fills (field : Field) (entries : List (String × Json)) (slot final : Option field.Value) : Prop :=
  match slot with
  | some _ => final = slot ∧ ∀ value, (field.key, value) ∉ entries
  | none =>
    (∀ value, (field.key, value) ∈ entries → ∃ found, field.codec.ofJson value = .ok found ∧ final = some found) ∧
      ((∀ value, (field.key, value) ∉ entries) → final = none)

private theorem fills_nil {slot final : Option field.Value} : Fills field [] slot final ↔ final = slot := by
  cases slot <;> simp [Fills]

private theorem fills_other (other : field.key ≠ key) {slot final : Option field.Value} :
    Fills field ((key, value) :: entries) slot final ↔ Fills field entries slot final := by
  cases slot <;> simp [Fills, other]

private theorem fills_here (alone : ∀ value, (field.key, value) ∉ entries) {final : Option field.Value} :
    Fills field ((field.key, value) :: entries) none final ↔
      ∃ found, field.codec.ofJson value = .ok found ∧ Fills field entries (some found) final := by
  simp [Fills, alone]

/-- Each slot is filled on its own. -/
theorem takeAll_eq_ok (other : field.key ∉ fields.map Field.key) (apart : (entries.map Prod.fst).Nodup)
    {slot final : Option field.Value} {rest rest' : Slots fields} :
    @takeAll entries (field :: fields) (slot, rest) = .ok (final, rest') ↔
      Fills field entries slot final ∧ takeAll entries rest = .ok rest' := by
  induction entries generalizing slot rest with
  | nil =>
    rw [fills_nil]
    constructor
    · intro done
      cases done
      exact ⟨rfl, rfl⟩
    · rintro ⟨rfl, done⟩
      cases done
      rfl
  | cons entry entries ih =>
    obtain ⟨key, value⟩ := entry
    obtain ⟨alone, apart'⟩ := List.nodup_cons.mp apart
    change @memberOfJson key value (field :: fields) (slot, rest) >>= takeAll entries = .ok (final, rest') ↔
      _ ∧ memberOfJson key value rest >>= takeAll entries = .ok rest'
    by_cases same : field.key = key
    · subst same
      have absent : ∀ value, (field.key, value) ∉ entries := fun _ among =>
        alone (List.mem_map.mpr ⟨_, among, rfl⟩)
      rw [memberOfJson_unknown other]
      cases slot with
      | some found =>
        rw [memberOfJson_again rfl]
        exact iff_of_false nofun fun fills => fills.1.2 value List.mem_cons_self
      | none =>
        rw [memberOfJson_here rfl, fills_here absent]
        constructor
        · intro done
          obtain ⟨_, first, others⟩ := bind_eq_ok.mp done
          obtain ⟨found, read, done⟩ := bind_eq_ok.mp first
          cases done
          obtain ⟨fills, others⟩ := (ih apart').mp others
          exact ⟨⟨found, read, fills⟩, others⟩
        · rintro ⟨⟨found, read, fills⟩, others⟩
          exact bind_eq_ok.mpr ⟨_, bind_eq_ok.mpr ⟨found, read, rfl⟩, (ih apart').mpr ⟨fills, others⟩⟩
    · rw [memberOfJson_other same, fills_other same]
      constructor
      · intro done
        obtain ⟨_, first, others⟩ := bind_eq_ok.mp done
        obtain ⟨next, read, done⟩ := bind_eq_ok.mp first
        cases done
        obtain ⟨fills, others⟩ := (ih apart').mp others
        exact ⟨fills, bind_eq_ok.mpr ⟨next, read, others⟩⟩
      · rintro ⟨fills, done⟩
        obtain ⟨next, read, others⟩ := bind_eq_ok.mp done
        exact bind_eq_ok.mpr ⟨_, bind_eq_ok.mpr ⟨next, read, rfl⟩, (ih apart').mpr ⟨fills, others⟩⟩

/-- Members all of whose keys differ fill the slots with what is found under the keys of the fields. -/
theorem takeAll_empty (apart : (entries.map Prod.fst).Nodup) : {fields : List Field} →
    (fields.map Field.key).Nodup → {row : Row fields} →
    ((∃ final, takeAll entries (empty fields) = .ok final ∧ final.fill = row) ↔
      row.Holds (fun field value found => field.codec.ofJson value = .ok found) entries (Row.blank fields))
  | [], _, _ => by
    refine iff_of_true ⟨(), ?_, rfl⟩ trivial
    induction entries with
    | nil => rfl
    | cons entry entries ih => exact ih (List.nodup_cons.mp apart).2
  | field :: fields, distinct, row => by
    obtain ⟨other, distinct⟩ := List.nodup_cons.mp distinct
    have others := @takeAll_empty apart fields distinct row.2
    constructor
    · rintro ⟨⟨slot, rest⟩, taken, rfl⟩
      obtain ⟨⟨here, absent⟩, taken⟩ := (takeAll_eq_ok other apart).mp taken
      refine ⟨fun value among => ?_, fun none => ?_, others.mp ⟨rest, taken, rfl⟩⟩
      · obtain ⟨found, read, rfl⟩ := here value among
        exact read
      · obtain rfl := absent none
        rfl
    · rintro ⟨here, absent, holds⟩
      obtain ⟨rest, taken, filled⟩ := others.mpr holds
      by_cases none : ∀ value, (field.key, value) ∉ entries
      · refine ⟨(Option.none, rest), (takeAll_eq_ok other apart).mpr ⟨⟨fun value among => absurd among (none value),
          fun _ => rfl⟩, taken⟩, Prod.ext (absent none).symm filled⟩
      · obtain ⟨value, among⟩ := Classical.not_forall_not.mp none
        refine ⟨(some row.1, rest), (takeAll_eq_ok other apart).mpr ⟨⟨fun value among => ⟨row.1, here value among, rfl⟩,
          fun absent => absurd absent none⟩, taken⟩, Prod.ext rfl filled⟩

end Slots

namespace Row
variable {fields : List Field}

private theorem itemsOfJson_eq_ok : {fields : List Field} → (fields.map Field.key).Nodup → {values : List Json} →
    values.length ≤ fields.length → {row : Row fields} → (itemsOfJson fields values = .ok row ↔
      row.Holds (fun field value found => field.codec.ofJson value = .ok found) ((fields.map Field.key).zip values)
        (blank fields))
  | [], _, [], _, _ => iff_of_true rfl trivial
  | field :: fields, _, [], _, row => by
    rw [List.zip_nil_right, holds_nil]
    exact ⟨fun done => (Except.ok.inj done).symm, fun same => congrArg Except.ok same.symm⟩
  | field :: fields, apart, value :: values, few, row => by
    obtain ⟨other, apart⟩ := List.nodup_cons.mp apart
    have others := @itemsOfJson_eq_ok fields apart values (Nat.le_of_succ_le_succ few) row.2
    rw [List.map_cons, List.zip_cons_cons, holds_cons other _ _ (absent_zip other values)]
    constructor
    · intro done
      obtain ⟨found, read, done⟩ := bind_eq_ok.mp done
      obtain ⟨rest, taken, done⟩ := bind_eq_ok.mp done
      cases done
      exact ⟨read, others.mp taken⟩
    · rintro ⟨read, holds⟩
      exact bind_eq_ok.mpr ⟨row.1, read, bind_eq_ok.mpr ⟨row.2, others.mpr holds, rfl⟩⟩

/-- What is found in the members that were changed is what is found by changing them. -/
theorem holds_map {β γ : Type} {finds : (field : Field) → γ → field.Value → Prop} (f : β → γ)
    {members : List (String × β)} {row base : Row fields} :
    row.Holds finds (members.map fun member => (member.1, f member.2)) base ↔
      row.Holds (fun field item => finds field (f item)) members base := by
  constructor
  · refine Holds.imp (fun field _ item among => ⟨f item, ?_, fun _ => id⟩) fun field _ item among => ?_
    · exact List.mem_map.mpr ⟨_, among, rfl⟩
    · obtain ⟨⟨_, item⟩, inside, same⟩ := List.mem_map.mp among
      cases same
      exact ⟨item, inside⟩
  · refine Holds.imp (fun field _ item among => ?_) fun field _ item among => ⟨f item, List.mem_map.mpr ⟨_, among, rfl⟩⟩
    obtain ⟨⟨_, item⟩, inside, same⟩ := List.mem_map.mp among
    cases same
    exact ⟨item, inside, fun _ => id⟩

variable (name : String) (apart : (fields.map Field.key).Nodup)
include apart

theorem ofJson_array {items : List Json} {row : Row fields} :
    ofJson name fields (canonical (.array items)) = .ok row ↔ items.length ≤ fields.length ∧
      row.Holds (fun field item found => field.codec.ofJson item.canonical = .ok found)
        ((fields.map Field.key).zip items) (blank fields) := by
  have zipped : (fields.map Field.key).zip (items.map canonical) =
      ((fields.map Field.key).zip items).map fun member => (member.1, member.2.canonical) := List.zip_map_right
  rw [canonical, canonicalItems_eq_map]
  change (itemsOfJson fields (items.map canonical) >>= fun row =>
    if fields.length < (items.map canonical).length then throw _ else pure row) = _ ↔ _
  rw [bind_eq_ok, List.length_map]
  by_cases few : items.length ≤ fields.length
  · have few' : (items.map canonical).length ≤ fields.length := by rwa [List.length_map]
    have taken {row : Row fields} := @itemsOfJson_eq_ok fields apart _ few' row
    rw [zipped] at taken
    simp only [taken, holds_map, if_neg (Nat.not_lt.mpr few), and_iff_right few]
    exact ⟨fun ⟨_, holds, done⟩ => Except.ok.inj done ▸ holds, fun holds => ⟨row, holds, rfl⟩⟩
  · simp only [if_pos (Nat.lt_of_not_le few)]
    exact iff_of_false (fun done => nomatch done.choose_spec.2) fun both => few both.1

theorem ofJson_object {entries : List (String × Json)}
    (single : ∀ field ∈ fields, ∀ value other,
      (field.key, value) ∈ entries → (field.key, other) ∈ entries → value = other)
    {row : Row fields} : ofJson name fields (canonical (.object entries)) = .ok row ↔
      row.Holds (fun field value found => field.codec.ofJson value.canonical = .ok found) entries (blank fields) := by
  rw [canonical, canonicalMembers_eq_map]
  change (Slots.takeAll _ (Slots.empty fields) >>= fun slots => pure slots.fill) = _ ↔ _
  rw [bind_eq_ok]
  have taken := @Slots.takeAll_empty _ (Entries.nodup_ascending (entries.map fun entry => (entry.1, entry.2.canonical)))
    fields apart row
  rw [Entries.ascending_map] at taken ⊢
  refine Iff.trans ⟨fun ⟨final, taken, done⟩ => ⟨final, taken, Except.ok.inj done⟩, fun ⟨final, taken, done⟩ =>
    ⟨final, taken, congrArg Except.ok done⟩⟩ (taken.trans ((holds_map canonical).trans ⟨?_, ?_⟩))
  · exact Holds.imp (fun field taken value among => ⟨value, (Entries.mem_ascending (single field taken)).mpr among,
      fun _ => id⟩) fun field _ value among => ⟨value, Entries.mem_of_mem_ascending among⟩
  · exact Holds.imp (fun field _ value among => ⟨value, Entries.mem_of_mem_ascending among, fun _ => id⟩)
      fun field taken value among => ⟨value, (Entries.mem_ascending (single field taken)).mpr among⟩

end Row
end LedgerClient

import Mathlib.Data.List.Nodup
import LedgerClient.Proofs.TolerantDecoding
import LedgerClient.Proofs.TypeRecognition

/-! The two forms in which a record stands in a text, an object under its keys or a list of
values in their order. In either form the record is read just if each value is read for its
field, each by itself, and no key of the record stands twice. -/

namespace LedgerClient
open Json Json.Reader Json.Grammar

/-- The texts of a record that has values under some of the given keys: an object that may
have other members too, or a list of values for the first keys. -/
inductive Given (keys : List String) : List (String × List UInt8) → List UInt8 → Prop
  | object {members : List (String × List UInt8)} {octets : List UInt8} (object : Object members octets) :
      Given keys members octets
  | list {texts : List (List UInt8)} {octets : List UInt8} (sequence : Sequence texts octets)
      (few : texts.length ≤ keys.length) : Given keys (keys.zip texts) octets

/-- Every member that has the key of a field is read for the field. -/
def Fits (depth : Nat) (fields : List Field) (members : List (String × List UInt8)) : Prop :=
  ∀ field ∈ fields, ∀ text, (field.key, text) ∈ members → ∃ value, (field.codec.read depth).run text = .ok value

private theorem fits_middle {depth : Nat} {fields : List Field} (apart : (fields.map Field.key).Nodup) {field : Field}
    (taken : field ∈ fields) {front back : List (String × List UInt8)} {text : List UInt8} :
    Fits depth fields (front ++ (field.key, text) :: back) ↔
      (∃ value, (field.codec.read depth).run text = .ok value) ∧ Fits depth fields (front ++ back) := by
  have among (member : String × List UInt8) :
      member ∈ front ++ (field.key, text) :: back ↔ member = (field.key, text) ∨ member ∈ front ++ back := by
    rw [List.mem_append, List.mem_cons, List.mem_append, or_left_comm]
  constructor
  · exact fun fits => ⟨fits field taken text ((among _).mpr (.inl rfl)),
      fun other taken text inside => fits other taken text ((among _).mpr (.inr inside))⟩
  · rintro ⟨here, others⟩ other taken' text' inside
    rcases (among _).mp inside with same | inside
    · obtain ⟨key, rfl⟩ := Prod.mk.inj same
      cases List.inj_on_of_nodup_map apart taken' taken key
      exact here
    · exact others other taken' text' inside

private theorem fst_zip_sublist : (keys : List String) → (texts : List (List UInt8)) →
    ((keys.zip texts).map Prod.fst).Sublist keys
  | [], _ => .slnil
  | _ :: _, [] => List.nil_sublist _
  | _ :: keys, _ :: texts => (fst_zip_sublist keys texts).cons_cons _

private theorem distinct_zip {keys : List String} (apart : keys.Nodup) (texts : List (List UInt8)) :
    Distinct keys (keys.zip texts) :=
  apart.sublist ((List.filter_sublist.map Prod.fst).trans (fst_zip_sublist keys texts))

namespace Row
variable {field : Field} {fields : List Field} {depth : Nat} {members : List (String × List UInt8)}

/-- The row has the value for the field. -/
inductive Has {field : Field} (value : field.Value) : {fields : List Field} → Row fields → Prop
  | here {fields : List Field} {row : Row (field :: fields)} (same : row.1 = value) : Has value row
  | there {other : Field} {fields : List Field} {row : Row (other :: fields)} (has : @Has field value fields row.2) :
      Has value row

private theorem Replaces.has : {fields : List Field} → {row base : Row fields} → row.Replaces depth members base →
    field ∈ fields → ∀ {text : List UInt8}, (field.key, text) ∈ members →
    ∃ value, (field.codec.read depth).run text = .ok value ∧ row.Has value
  | _ :: _, row, _, ⟨here, _, others⟩, taken, text, among => by
    rcases List.mem_cons.mp taken with rfl | taken
    · exact ⟨row.1, here text among, .here rfl⟩
    · obtain ⟨value, read, has⟩ := others.has taken among
      exact ⟨value, read, .there has⟩

private theorem Replaces.fits : {fields : List Field} → {row base : Row fields} → row.Replaces depth members base →
    Fits depth fields members
  | [], _, _, _ => nofun
  | _ :: _, row, _, ⟨here, _, others⟩ =>
    List.forall_mem_cons.mpr ⟨fun text among => ⟨row.1, here text among⟩, others.fits⟩

/-- The row has what is found under the keys of its fields, and is like the other one where
nothing stands under a key. -/
def Holds {β : Type} (finds : (field : Field) → β → field.Value → Prop) (members : List (String × β)) :
    {fields : List Field} → (row base : Row fields) → Prop
  | [], _, _ => True
  | field :: _, row, base =>
    (∀ item, (field.key, item) ∈ members → finds field item row.1) ∧
      ((∀ item, (field.key, item) ∉ members) → row.1 = base.1) ∧ Holds finds members row.2 base.2

theorem replaces_iff_holds : {fields : List Field} → {row base : Row fields} → row.Replaces depth members base ↔
    row.Holds (fun field text value => (field.codec.read depth).run text = .ok value) members base
  | [], _, _ => Iff.rfl
  | _ :: _, _, _ => and_congr Iff.rfl (and_congr Iff.rfl replaces_iff_holds)

section
variable {β γ : Type} {finds : (field : Field) → β → field.Value → Prop} {items : List (String × β)}

theorem holds_nil : {fields : List Field} → {row base : Row fields} → row.Holds finds [] base ↔ row = base
  | [], _, _ => iff_of_true trivial rfl
  | _ :: _, _, _ =>
    ⟨fun ⟨_, same, others⟩ => Prod.ext (same fun _ => List.not_mem_nil) (holds_nil.mp others),
      fun same => ⟨nofun, fun _ => congrArg Prod.fst same, holds_nil.mpr (congrArg Prod.snd same)⟩⟩

/-- A row holds what is found in other members, if under each key at least that is found there. -/
theorem Holds.imp {finds' : (field : Field) → γ → field.Value → Prop} {entries : List (String × γ)} :
    {fields : List Field} → {row base : Row fields} →
    (∀ field ∈ fields, ∀ entry, (field.key, entry) ∈ entries →
      ∃ item, (field.key, item) ∈ items ∧ ∀ value, finds field item value → finds' field entry value) →
    (∀ field ∈ fields, ∀ item, (field.key, item) ∈ items → ∃ entry, (field.key, entry) ∈ entries) →
    row.Holds finds items base → row.Holds finds' entries base
  | [], _, _, _, _, _ => trivial
  | field :: fields, row, base, found, known, ⟨here, absent, others⟩ => by
    obtain ⟨first, found⟩ := List.forall_mem_cons.mp found
    obtain ⟨stands, known⟩ := List.forall_mem_cons.mp known
    refine ⟨fun entry among => ?_, fun none => absent fun item among => ?_, others.imp found known⟩
    · obtain ⟨item, among, same⟩ := first entry among
      exact same _ (here item among)
    · obtain ⟨entry, among⟩ := stands item among
      exact none entry among

theorem holds_cons (other : field.key ∉ fields.map Field.key) (row base : Row (field :: fields)) {item : β}
    (absent : ∀ item, (field.key, item) ∉ items) :
    row.Holds finds ((field.key, item) :: items) base ↔ finds field item row.1 ∧ Holds finds items row.2 base.2 := by
  have same : ∀ next ∈ fields, ∀ item', (next.key, item') ∈ (field.key, item) :: items ↔ (next.key, item') ∈ items := by
    intro next among item'
    have differs : next.key ≠ field.key := fun equal => other (equal ▸ List.mem_map_of_mem among)
    rw [List.mem_cons, Prod.mk.injEq, or_iff_right fun equal => differs equal.1]
  constructor
  · rintro ⟨here, _, others⟩
    refine ⟨here item List.mem_cons_self,
      others.imp (fun next taken item' among => ?_) fun next taken item' among => ?_⟩
    · exact ⟨item', (same next taken item').mpr among, fun _ => id⟩
    · exact ⟨item', (same next taken item').mp among⟩
  · rintro ⟨here, others⟩
    refine ⟨fun item' among => ?_, fun none => absurd List.mem_cons_self (none item),
      others.imp (fun next taken item' among => ?_) fun next taken item' among => ?_⟩
    · rcases List.mem_cons.mp among with equal | among
      · cases equal
        exact here
      · exact absurd among (absent item')
    · exact ⟨item', (same next taken item').mp among, fun _ => id⟩
    · exact ⟨item', (same next taken item').mpr among⟩

theorem absent_zip (other : field.key ∉ fields.map Field.key) (items : List β) :
    ∀ item, (field.key, item) ∉ (fields.map Field.key).zip items :=
  fun _ among => other (List.of_mem_zip among).1

end

private theorem items_eq_done {rest left : List UInt8} : {fields : List Field} → RecognisingFields fields →
    (fields.map Field.key).Nodup → {first : Bool} → {texts : List (List UInt8)} → {input : List UInt8} →
    Series rest first texts input → {row : Row fields} →
    ((∃ stop, items depth fields first input = .done row stop ∧ closeList stop = .done () left) ↔
      left = rest ∧ texts.length ≤ fields.length ∧
        row.Replaces depth ((fields.map Field.key).zip texts) (blank fields))
  | [], _, _, _, [], _, .ends seen, _ => by
    refine ⟨fun ⟨_, read, closed⟩ => ?_, fun ⟨same, _⟩ => ⟨_, rfl, closeList_eq_done.mpr (same ▸ seen)⟩⟩
    cases read
    cases seen.symm.trans (closeList_eq_done.mp closed)
    exact ⟨rfl, Nat.le_refl _, trivial⟩
  | [], _, _, _, _ :: _, _, .item sound seen more ends behind, _ => by
    refine iff_of_false (fun ⟨_, read, closed⟩ => ?_) nofun
    cases read
    have closes := closeList_eq_done.mp closed
    cases more with
    | starts seen item => exact item (List.cons.inj (seen.symm.trans closes)).1
    | continues comma => cases comma.symm.trans closes
  | field :: fields, _, _, first, [], _, .ends seen, row => by
    have stops : items depth (field :: fields) first _ = .done (blank (field :: fields)) (93 :: rest) :=
      bind_of_done (moreItems_eq_done.mpr (.ends seen)) _
    simp only [stops, closeList_eq_done, List.zip_nil_right, replaces_iff_holds, holds_nil]
    constructor
    · rintro ⟨_, done, closes⟩
      cases done
      exact ⟨closes.again rfl, Nat.zero_le _, rfl⟩
    · rintro ⟨rfl, _, rfl⟩
      exact ⟨_, rfl, Next.here rfl _⟩
  | field :: fields, fits, apart, first, text :: texts, _, .item sound seen more ends behind, row => by
    obtain ⟨other, apart⟩ := List.nodup_cons.mp apart
    have proper := fits.head.proper depth
    rw [List.map_cons, List.zip_cons_cons, replaces_iff_holds, holds_cons other _ _ (absent_zip other texts),
      ← replaces_iff_holds, List.length_cons, List.length_cons, Nat.succ_le_succ_iff, items,
      bind_of_done (moreItems_eq_done.mpr more)]
    change (∃ stop, (field.codec.read depth >>= _) _ = _ ∧ _) ↔ _
    constructor
    · rintro ⟨stop, read, closed⟩
      obtain ⟨value, _, here, others⟩ := bind_eq_done.mp read
      obtain ⟨values, _, others, done⟩ := bind_eq_done.mp others
      cases done
      obtain ⟨alone, blank, all, rfl⟩ := proper.run_of_item seen ends sound here
      obtain ⟨rfl, few, replaces⟩ := (items_eq_done fits.tail apart (behind blank all)).mp ⟨stop, others, closed⟩
      exact ⟨rfl, few, alone, replaces⟩
    · rintro ⟨rfl, few, alone, replaces⟩
      obtain ⟨blank, all, here⟩ := proper.item_of_run seen ends alone
      obtain ⟨stop, others, closed⟩ := (items_eq_done fits.tail apart (behind blank all)).mpr ⟨rfl, few, replaces⟩
      refine ⟨stop, ?_, closed⟩
      rw [bind_of_done here, bind_of_done others]
      rfl

private theorem read_brackets (name : String) {before input left : List UInt8} (front : Blank before)
    {row : Row fields} :
    read name fields (depth + 1) (before ++ 91 :: input) = .done row left ↔
      ∃ stop, items depth fields true input = .done row stop ∧ closeList stop = .done () left := by
  have bracket : read name fields (depth + 1) (before ++ 91 :: input) =
      placed (skipOne >>= fun _ => enclosed (items depth fields true) closeList) (91 :: input) :=
    ahead_of_next (Next.behind front rfl input) _
  rw [bracket, Codec.placed_eq_done, skipOne_bind, enclosed_eq_done]

theorem run_sequence (name : String) (fits : RecognisingFields fields) (apart : (fields.map Field.key).Nodup)
    {texts : List (List UInt8)} {octets : List UInt8} (sequence : Sequence texts octets) {row : Row fields} :
    (read name fields (depth + 1)).run octets = .ok row ↔ texts.length ≤ fields.length ∧
      row.Replaces depth ((fields.map Field.key).zip texts) (blank fields) := by
  cases sequence with
  | @brackets _ _ after front sound back =>
    have series := series_of_items sound after
    simp only [run_eq_ok_iff, read_brackets name front, items_eq_done fits apart series]
    exact ⟨fun ⟨_, _, _, few, replaces⟩ => ⟨few, replaces⟩, fun ⟨few, replaces⟩ => ⟨after, back, rfl, few, replaces⟩⟩

private theorem fits_of_read (name : String) (fits : RecognisingFields fields) (apart : (fields.map Field.key).Nodup)
    {octets rest left : List UInt8} (object : Object members octets) {row : Row fields}
    (read : read name fields (depth + 1) (octets ++ rest) = .done row left) : Fits depth fields members := by
  cases object with
  | braces front sound back =>
    simp only [List.append_assoc, List.cons_append] at read
    obtain ⟨slots, read, _⟩ := (read_braces name front).mp read
    refine holds_of_object (fun members _ => Fits depth fields members)
      (fun key slots => Slots.passes_member fits.toLocal depth key slots) (fun _ _ _ _ => nofun)
      (fun key text between tail members slots next left blank sound ends step others => ?_) sound read
    intro field taken text' among
    rcases List.mem_cons.mp among with same | among
    · cases same
      obtain ⟨value, here⟩ := Slots.taken_of_member (Next.behind blank rfl _) apart step field taken rfl
      exact ⟨value, (((fits.each field taken).proper depth).run_of_taken sound ends here).1⟩
    · exact others field taken text' among

theorem run_object (name : String) (fits : RecognisingFields fields) (apart : (fields.map Field.key).Nodup)
    {octets : List UInt8} (object : Object members octets) {row : Row fields} :
    (read name fields (depth + 1)).run octets = .ok row ↔
      Distinct (fields.map Field.key) members ∧ row.Replaces depth members (blank fields) := by
  have reads (distinct : Distinct (fields.map Field.key) members) (row : Row fields)
      (replaces : row.Replaces depth members (blank fields)) : (read name fields (depth + 1)).run octets = .ok row :=
    run_of_reads (reads_object name fits.toLocal apart object distinct replaces)
  refine ⟨fun run => ?_, fun ⟨distinct, replaces⟩ => reads distinct row replaces⟩
  obtain ⟨left, _, taken⟩ := run_eq_ok_iff.mp run
  rw [← List.append_nil octets] at taken
  have distinct := distinct_of_read name fits.toLocal apart object taken
  obtain ⟨other, replaces⟩ := exists_replaces
    (fun field taken text other => distinct.unique (List.mem_map_of_mem taken))
    (fits_of_read name fits apart object taken) (blank fields)
  -- Reading gives the row that the members make, which is therefore the one that was read.
  cases (reads distinct other replaces).symm.trans run
  exact ⟨distinct, replaces⟩

private theorem run_given (name : String) (fits : RecognisingFields fields) (apart : (fields.map Field.key).Nodup)
    {octets : List UInt8} (given : Given (fields.map Field.key) members octets) {row : Row fields} :
    (read name fields (depth + 1)).run octets = .ok row ↔
      Distinct (fields.map Field.key) members ∧ row.Replaces depth members (blank fields) := by
  cases given with
  | object object => exact run_object name fits apart object
  | list sequence few =>
    rw [List.length_map] at few
    rw [run_sequence name fits apart sequence, and_iff_right few, and_iff_right (distinct_zip apart _)]

end Row

namespace Catalogue
variable {entry : Entry} {depth : Nat} {members : List (String × List UInt8)} {octets : List UInt8}

/-- Reads the record where values may nest as deep as is said, in others or by itself. -/
def Entry.reader (entry : Entry) (depth : Nat) : Reader entry.Record :=
  letI := entry.blank
  letI := entry.model
  Codec.read depth

/-- The record has the value for the field. -/
def Entry.Has (entry : Entry) (record : entry.Record) (field : Field) (value : field.Value) : Prop :=
  (entry.toRow record).Has value

private theorem run_reader_iff {record : entry.Record} : (entry.reader depth).run octets = .ok record ↔
    (Row.read entry.name entry.fields depth).run octets = .ok (entry.toRow record) := by
  let := entry.blank
  let := entry.model
  refine run_map_iff.trans ⟨?_, fun run => ⟨_, run, Model.ofRow_toRow record⟩⟩
  rintro ⟨row, run, rfl⟩
  exact run.trans (congrArg Except.ok (entry.toRow_ofRow row).symm)

section
variable (listed : entry ∈ entries)
include listed

/-- A record is read from either of its forms just if none of its keys stands twice and it
has what is read under its keys, and what it has by default where nothing is. -/
theorem run_given_iff (given : Given entry.keys members octets) {record : entry.Record} :
    (entry.reader (depth + 1)).run octets = .ok record ↔ Distinct entry.keys members ∧
      (entry.toRow record).Replaces depth members (entry.toRow entry.default) := by
  rw [run_reader_iff, entry.toRow_default]
  exact Row.run_given _ (recognising_of_mem entry listed) (keys_nodup entry listed) given

private theorem run_succeeds_iff (given : Given entry.keys members octets) :
    (∃ record, (entry.reader (depth + 1)).run octets = .ok record) ↔
      Distinct entry.keys members ∧ Fits depth entry.fields members := by
  simp only [run_given_iff listed given]
  constructor
  · rintro ⟨record, distinct, replaces⟩
    exact ⟨distinct, replaces.fits⟩
  · rintro ⟨distinct, fits⟩
    obtain ⟨row, replaces⟩ := Row.exists_replaces
      (fun field taken text other => distinct.unique (List.mem_map_of_mem taken)) fits (entry.toRow entry.default)
    exact ⟨entry.ofRow row, distinct, by rwa [entry.toRow_ofRow]⟩

/-- A member of a record that is read is read for its field, and the record has its value. -/
theorem has_of_run (given : Given entry.keys members octets) {record : entry.Record}
    (run : (entry.reader (depth + 1)).run octets = .ok record) {field : Field} (taken : field ∈ entry.fields)
    {text : List UInt8} (among : (field.key, text) ∈ members) :
    ∃ value, (field.codec.read depth).run text = .ok value ∧ entry.Has record field value :=
  ((run_given_iff listed given).mp run).2.has taken among

/-- Whether a record is read depends on each member by itself. -/
theorem run_succeeds_middle {front back : List (String × List UInt8)} {field : Field} {text : List UInt8}
    (taken : field ∈ entry.fields) (given : Given entry.keys (front ++ (field.key, text) :: back) octets) :
    (∃ record, (entry.reader (depth + 1)).run octets = .ok record) ↔
      (∃ value, (field.codec.read depth).run text = .ok value) ∧
        Distinct entry.keys (front ++ (field.key, text) :: back) ∧ Fits depth entry.fields (front ++ back) := by
  rw [run_succeeds_iff listed given, fits_middle (keys_nodup entry listed) taken, and_left_comm]

end
end Catalogue
end LedgerClient

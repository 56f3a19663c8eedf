import LedgerClient.Proofs.RecordValues
import LedgerClient.Proofs.ValueReading

/-! Decoding a text directly and through a value that is read from it. Both ways give the same
if both give something. Where the text is read as a value and that is decoded, the text is
decoded directly too, unless it has an object for a record in which a key of the record is
repeated: of members with one key the value has the last one only. -/

namespace LedgerClient
open Json Json.Reader Json.Grammar

/-- When the value is decoded for the type, the part of it is decoded as a record with the fields. -/
inductive Part (fields : List Field) (part : Json) : (α : Type) → [Codec α] → Json → Prop
  | record {α : Type} [Inhabited α] [Model α] (same : Model.fields α = fields) : Part fields part α part
  | member {α : Type} [Inhabited α] [Model α] {field : Field} {value : Json} {members : List (String × Json)}
      (taken : field ∈ Model.fields α) (among : (field.key, value) ∈ members)
      (inside : @Part fields part field.Value field.codec value) : Part fields part α (.object members)
  | listed {α : Type} [Inhabited α] [Model α] {field : Field} {value : Json} {values : List Json}
      (stands : (field, value) ∈ (Model.fields α).zip values)
      (inside : @Part fields part field.Value field.codec value) : Part fields part α (.array values)
  | item {α : Type} [Codec α] {value : Json} {values : List Json} (among : value ∈ values)
      (inside : Part fields part α value) : Part fields part (List α) (.array values)
  | some {α : Type} [Codec α] {value : Json} (inside : Part fields part α value) : Part fields part (Option α) value

/-- Some object that is decoded as a record repeats a key of that record. -/
def Repeats (α : Type) [Codec α] (value : Json) : Prop :=
  ∃ fields members, Part fields (.object members) α value ∧ ∃ field ∈ fields, 1 < (members.map Prod.fst).count field.key

/-- A type that is decoded from texts as it is from the values that are read from them. -/
class Codec.Agrees (α : Type) [codec : Codec α] : Prop extends Codec.Recognising α where
  through {depth : Nat} {text : List UInt8} {value : Json} {found : α}
    (read : (Json.Reader.value depth).run text = .ok value) (direct : (codec.read depth).run text = .ok found) :
    codec.ofJson value.canonical = .ok found
  direct {depth : Nat} {text : List UInt8} {value : Json} {found : α}
    (read : (Json.Reader.value depth).run text = .ok value) (once : ¬Repeats α value)
    (through : codec.ofJson value.canonical = .ok found) : (codec.read depth).run text = .ok found

namespace Codec

private theorem agrees_of_iff [Codec α] (here : Recognising α)
    (same : ∀ {depth text value} {found : α}, Form text depth value →
      ((Codec.read depth).run text = .ok found ↔ Codec.ofJson value.canonical = .ok found)) : Agrees α :=
  { here with
    through := fun read => (same (form_of_run read)).mp
    direct := fun read _ => (same (form_of_run read)).mpr }

section
variable {expected : String} {fits : Char → Bool} {reader : Reader α} {text rest : List UInt8} {mark : UInt8}
  {found : α}

private theorem run_read?_iff (seen : Next mark text rest) : (read? expected fits reader).run text = .ok found ↔
    fits (character mark) = true ∧ ∃ blank, Blank blank ∧ reader (mark :: rest) = .done found blank := by
  simp only [run_eq_ok_iff, read?_eq_done]
  constructor
  · rintro ⟨blank, back, mark', rest', seen', fit, read⟩
    cases seen.symm.trans seen'
    exact ⟨fit, blank, back, read⟩
  · rintro ⟨fit, blank, back, read⟩
    exact ⟨blank, back, mark, rest, seen, fit, read⟩

/-- Nothing is read for a type from a value of another kind. -/
theorem misfits {depth : Nat} {value : Json} (form : Form text depth value)
    (differs : ∀ c, fits c = true → opens value c = false) : (read? expected fits reader).run text ≠ .ok found := by
  obtain ⟨mark, rest, seen, starts⟩ := form.starts
  rw [Ne, run_read?_iff seen]
  rintro ⟨fit, _⟩
  cases starts.symm.trans (differs _ fit)

/-- The same for a type whose texts start with one of the given characters. -/
theorem misfits_marks {depth : Nat} {value : Json} (marks : List Char) (fitting : ∀ c, fits c = true → c ∈ marks)
    (form : Form text depth value) (differs : marks.all (fun c => !opens value c) = true) :
    (read? expected fits reader).run text ≠ .ok found := by
  refine misfits form fun c fit => ?_
  have closed := List.all_eq_true.mp differs c (fitting c fit)
  rwa [Bool.not_eq_true'] at closed

end

instance : Agrees UInt64 := agrees_of_iff inferInstance fun {depth text value found} form => by
  cases value with
  | integer | float =>
    cases form with
    | number seen first number read back =>
      refine (run_read?_iff seen).trans ?_
      change _ ∧ (∃ blank, _ ∧ (Reader.number >>= fun number => lift (amount number)) _ = _) ↔ amount _ = _
      simp only [bind_of_done read, lift_eq_done]
      exact ⟨fun ⟨_, _, _, exact, _⟩ => exact, fun exact => ⟨by simpa using first, _, back, exact, rfl⟩⟩
  | null | bool | string | array | object =>
    exact iff_of_false (misfits form fun c first => opens_otherwise id first) nofun

instance : Agrees Bool := agrees_of_iff inferInstance fun {depth text value found} form => by
  cases value with
  | bool truth =>
    cases form with
    | number _ _ number => exact number.elim
    | @bool _ mark rest blank _ seen letter read back =>
      refine (run_read?_iff seen).trans ?_
      change _ ∧ (∃ blank, _ ∧ (startingWith (failAhead .noValue) (failAhead .noValue) (character mark) >>=
        fun value => pure (decide (value = .bool true))) (mark :: rest) = _) ↔ Except.ok truth = _
      rw [bind_of_done read]
      have same : decide (Json.bool truth = .bool true) = truth := by cases truth <;> rfl
      rw [same]
      constructor
      · rintro ⟨_, _, _, done⟩
        cases done
        rfl
      · intro done
        cases done
        exact ⟨by simpa using letter, blank, back, rfl⟩
  | null | integer | float | string | array | object =>
    exact iff_of_false (misfits_marks ['t', 'f'] (fun c fit => by simpa using fit) form rfl) nofun

private theorem agrees_text (expected : String) (parse : String → Except String α) (print : α → String) :
    @Agrees α (text expected parse print) :=
  letI := text expected parse print
  agrees_of_iff (recognising_text ..) fun {depth text value found} form => by
    cases value with
    | string content =>
      cases form with
      | number _ _ number => exact number.elim
      | string quoted =>
        refine run_text_iff.trans (Iff.trans ⟨?_, fun parsed => ⟨content, quoted, parsed⟩⟩ mapError_eq_ok.symm)
        rintro ⟨other, quoted', parsed⟩
        exact quoted_unique quoted quoted' ▸ parsed
    | null | bool | integer | float | array | object =>
      exact iff_of_false (misfits_marks ['"'] (fun c fit => by simpa using fit) form rfl) nofun

instance : Agrees String := agrees_text ..

instance : Agrees Bytes := agrees_text ..

private theorem ofJson_canonical (value : Json) : RawJson.ofJson value.canonical = RawJson.ofJson value := by
  simp only [RawJson.ofJson, canonical_canonical]

instance : Agrees RawJson where
  through {depth text value found} read direct := by
    obtain ⟨other, read', rfl⟩ := run_map_iff.mp direct
    cases read.symm.trans read'
    exact congrArg Except.ok (ofJson_canonical value)
  direct {depth text value found} read _ through :=
    run_map_iff.mpr ⟨value, read, (ofJson_canonical value).symm.trans (Except.ok.inj through)⟩

private theorem ofJson_some [Codec α] {value : Json} (present : value ≠ .null) :
    (Codec.ofJson value.canonical : Except Misfit (Option α)) = (do return some (← Codec.ofJson value.canonical)) := by
  cases value <;> first | exact absurd rfl present | rfl

/-- A value that is not null is decoded both ways as it would be if it could not be missing. -/
theorem present_iff [Codec α] (here : Recognising α) {depth : Nat} {text : List UInt8} {value : Json}
    (form : Form text depth value) (present : value ≠ .null) {found : Option α} :
    ((Codec.read depth : Reader (Option α)).run text = .ok found ↔
      ∃ inner, (Codec.read depth : Reader α).run text = .ok inner ∧ some inner = found) ∧
    ((Codec.ofJson value.canonical = .ok found) ↔
      ∃ inner : α, Codec.ofJson value.canonical = .ok inner ∧ some inner = found) := by
  obtain ⟨mark, rest, seen, starts⟩ := form.starts
  have other : mark ≠ 110 := by
    rintro rfl
    cases value <;> first | exact absurd rfl present | cases starts
  refine ⟨run_some_iff here seen other, ?_⟩
  rw [ofJson_some present, bind_eq_ok]
  exact ⟨fun ⟨inner, read, done⟩ => ⟨inner, read, Except.ok.inj done⟩,
    fun ⟨inner, read, done⟩ => ⟨inner, read, congrArg Except.ok done⟩⟩

private theorem agrees_option [Codec α] (here : Agrees α) : Agrees (Option α) where
  toRecognising := recognising_option here.toRecognising
  through {depth text value found} read direct := by
    have form := form_of_run read
    by_cases present : value = .null
    · subst present
      cases form with
      | number _ _ number => exact number.elim
      | null seen word back =>
        cases (run_null seen word back).symm.trans direct
        rfl
    · obtain ⟨direct_iff, through_iff⟩ := present_iff here.toRecognising form present
      obtain ⟨inner, taken, rfl⟩ := direct_iff.mp direct
      exact through_iff.mpr ⟨inner, here.through read taken, rfl⟩
  direct {depth text value found} read once through := by
    have form := form_of_run read
    by_cases present : value = .null
    · subst present
      cases form with
      | number _ _ number => exact number.elim
      | null seen word back =>
        cases through
        exact run_null seen word back
    · obtain ⟨direct_iff, through_iff⟩ := present_iff here.toRecognising form present
      obtain ⟨inner, taken, rfl⟩ := through_iff.mp through
      have once : ¬Repeats α value := fun ⟨fields, members, part, twice⟩ => once ⟨fields, members, .some part, twice⟩
      exact direct_iff.mpr ⟨inner, here.direct read once taken, rfl⟩

private theorem ofJson_list [Codec α] {items : List Json} {values : List α} :
    Codec.ofJson (canonical (.array items)) = .ok values ↔
      items.Forall₂ (fun item value => Codec.ofJson item.canonical = .ok value) values := by
  change List.mapM Codec.ofJson (canonicalItems items) = _ ↔ _
  rw [canonicalItems_eq_map, mapM_eq_ok, List.forall₂_map_left_iff]

private theorem agrees_list [Codec α] (here : Agrees α) : Agrees (List α) where
  toRecognising := recognising_list here.toRecognising
  through {depth text value found} read direct := by
    have form := form_of_run read
    cases value with
    | array items =>
      cases form with
      | number _ _ number => exact number.elim
      | array sequence items =>
        refine ofJson_list.mpr (forall₂_exchange items (fun _ _ _ _ read _ => here.through read) ?_)
        exact (run_list_iff here.toRecognising sequence).mp direct
    | null | bool | integer | float | string | object =>
      exact absurd direct (misfits_marks ['['] (fun c fit => by simpa using fit) form rfl)
  direct {depth text value found} read once through := by
    have form := form_of_run read
    cases value with
    | array items =>
      cases form with
      | number _ _ number => exact number.elim
      | array sequence items =>
        refine (run_list_iff here.toRecognising sequence).mpr ?_
        refine forall₂_exchange items.flip (fun item among _ _ read _ => here.direct read ?_) (ofJson_list.mp through)
        exact fun ⟨fields, members, part, twice⟩ => once ⟨fields, members, .item among part, twice⟩
    | null | bool | integer | float | string | object => cases through

end Codec

/-- The types of all fields are decoded from texts as from values. -/
structure AgreeingFields (fields : List Field) : Prop where
  each : ∀ field ∈ fields, @Codec.Agrees field.Value field.codec

namespace AgreeingFields
variable {key : String} {fields : List Field}

private theorem nil : AgreeingFields [] := ⟨nofun⟩

private theorem always [Codec α] [Inhabited α] (here : Codec.Agrees α) (rest : AgreeingFields fields) :
    AgreeingFields (.always key α :: fields) := ⟨List.forall_mem_cons.mpr ⟨here, rest.each⟩⟩

private theorem whenSome [Codec α] (here : Codec.Agrees (Option α)) (rest : AgreeingFields fields) :
    AgreeingFields (.whenSome key α :: fields) := ⟨List.forall_mem_cons.mpr ⟨here, rest.each⟩⟩

private theorem toRecognising (fits : AgreeingFields fields) : RecognisingFields fields :=
  ⟨fun field taken => (fits.each field taken).toRecognising⟩

end AgreeingFields

private theorem distinct_of_count {keys : List String} {members : List (String × List UInt8)}
    (once : ∀ key ∈ keys, (members.map Prod.fst).count key ≤ 1) : Distinct keys members := by
  have keyed : (known keys members).map Prod.fst = (members.map Prod.fst).filter (· ∈ keys) := by
    rw [known, List.filter_map]
    rfl
  rw [Distinct, keyed, List.nodup_iff_count_le_one]
  intro key
  by_cases taken : key ∈ keys
  · rw [List.count_filter (by simpa using taken)]
    exact once key taken
  · rw [List.count_eq_zero_of_not_mem fun among => taken (by simpa using (List.mem_filter.mp among).2)]
    exact Nat.zero_le 1

namespace Row
variable {fields : List Field} {depth : Nat} {members : List (String × List UInt8)} {entries : List (String × Json)}

private theorem readMembers_zip {texts : List (List UInt8)} {items : List Json}
    (read : texts.Forall₂ (fun text item => (value depth).run text = .ok item) items) :
    (keys : List String) → ReadMembers depth (keys.zip texts) (keys.zip items)
  | [] => .nil
  | key :: keys => by
    cases read with
    | nil => exact .nil
    | cons first others => exact .cons ⟨rfl, first⟩ (readMembers_zip others keys)

section
variable (read : ReadMembers depth members entries)
include read

private theorem keys_of_readMembers : members.map Prod.fst = entries.map Prod.fst := by
  induction read with
  | nil => rfl
  | cons first _ ih => rw [List.map_cons, List.map_cons, first.1, ih]

private theorem text_of_entry {key : String} {json : Json} (among : (key, json) ∈ entries) :
    ∃ text, (key, text) ∈ members ∧ (value depth).run text = .ok json := by
  obtain ⟨⟨_, text⟩, member, rfl, taken⟩ := exists_of_forall₂ read.flip among
  exact ⟨text, member, taken⟩

private theorem entry_of_text {key : String} {text : List UInt8} (among : (key, text) ∈ members) :
    ∃ json, (key, json) ∈ entries ∧ (value depth).run text = .ok json := by
  obtain ⟨⟨_, json⟩, entry, rfl, taken⟩ := exists_of_forall₂ read among
  exact ⟨json, entry, taken⟩

private theorem single_entries {keys : List String} (distinct : Distinct keys members) {key : String}
    (known : key ∈ keys)
    (json other : Json) (first : (key, json) ∈ entries) (second : (key, other) ∈ entries) : json = other := by
  obtain ⟨text, among, taken⟩ := text_of_entry read first
  obtain ⟨text', among', taken'⟩ := text_of_entry read second
  cases distinct.unique known among among'
  cases taken.symm.trans taken'
  rfl

variable (fits : AgreeingFields fields) {row base : Row fields}
include fits

private theorem holds_of_replaces (replaces : row.Replaces depth members base) :
    row.Holds (fun field json found => field.codec.ofJson json.canonical = .ok found) entries base := by
  refine (replaces_iff_holds.mp replaces).imp (fun field taken json among => ?_) fun field _ text among => ?_
  · obtain ⟨text, among, read⟩ := text_of_entry read among
    exact ⟨text, among, fun _ => (fits.each field taken).through read⟩
  · obtain ⟨json, among, _⟩ := entry_of_text read among
    exact ⟨json, among⟩

private theorem replaces_of_holds
    (once : ∀ field ∈ fields, ∀ json, (field.key, json) ∈ entries → ¬@Repeats field.Value field.codec json)
    (holds : row.Holds (fun field json found => field.codec.ofJson json.canonical = .ok found) entries base) :
    row.Replaces depth members base := by
  refine replaces_iff_holds.mpr (holds.imp (fun field taken text among => ?_) fun field _ json among => ?_)
  · obtain ⟨json, among, read⟩ := entry_of_text read among
    exact ⟨json, among, fun _ => (fits.each field taken).direct read (once field taken json among)⟩
  · obtain ⟨text, among, _⟩ := text_of_entry read among
    exact ⟨text, among⟩

end

/-- Neither the value itself nor what stands in it for a field repeats a key. -/
def Unrepeated (fields : List Field) : Json → Prop
  | .array items => ∀ field ∈ fields, ∀ item, (field.key, item) ∈ (fields.map Field.key).zip items →
      ¬@Repeats field.Value field.codec item
  | .object entries => (∀ field ∈ fields, (entries.map Prod.fst).count field.key ≤ 1) ∧
      ∀ field ∈ fields, ∀ json, (field.key, json) ∈ entries → ¬@Repeats field.Value field.codec json
  | _ => True

section
variable (name : String) (fits : AgreeingFields fields) (apart : (fields.map Field.key).Nodup) {text : List UInt8}
  {json : Json} (taken : (value depth).run text = .ok json) {row : Row fields}
include fits apart taken

private theorem through (direct : (read name fields depth).run text = .ok row) :
    ofJson name fields json.canonical = .ok row := by
  have form := form_of_run taken
  cases json with
  | array items =>
    cases form with
    | number _ _ number => exact number.elim
    | array sequence items =>
      obtain ⟨few, replaces⟩ := (run_sequence name fits.toRecognising apart sequence).mp direct
      refine (ofJson_array name apart).mpr ⟨items.length_eq ▸ few, ?_⟩
      exact holds_of_replaces (readMembers_zip items _) fits replaces
  | object entries =>
    cases form with
    | number _ _ number => exact number.elim
    | object object entries =>
      obtain ⟨distinct, replaces⟩ := (run_object name fits.toRecognising apart object).mp direct
      refine (ofJson_object name apart fun field taken => ?_).mpr (holds_of_replaces entries fits replaces)
      exact single_entries entries distinct (List.mem_map_of_mem taken)
  | null | bool | integer | float | string =>
    exact absurd direct (Codec.misfits_marks ['[', '\x7b'] (fun c fit => by simpa using fit) form rfl)

private theorem direct (once : Unrepeated fields json) (through : ofJson name fields json.canonical = .ok row) :
    (read name fields depth).run text = .ok row := by
  have form := form_of_run taken
  cases json with
  | array items =>
    cases form with
    | number _ _ number => exact number.elim
    | array sequence read =>
      obtain ⟨few, holds⟩ := (ofJson_array name apart).mp through
      refine (run_sequence name fits.toRecognising apart sequence).mpr ⟨read.length_eq ▸ few, ?_⟩
      exact replaces_of_holds (readMembers_zip read _) fits once holds
  | object entries =>
    cases form with
    | number _ _ number => exact number.elim
    | @object _ members _ object read =>
      have distinct : Distinct (fields.map Field.key) members := by
        refine distinct_of_count (List.forall_mem_map.mpr fun field taken => ?_)
        rw [keys_of_readMembers read]
        exact once.1 field taken
      have holds := (ofJson_object name apart fun field taken => single_entries read distinct
        (List.mem_map_of_mem taken)).mp through
      exact (run_object name fits.toRecognising apart object).mpr ⟨distinct, replaces_of_holds read fits once.2 holds⟩
  | null | bool | integer | float | string => cases through

end
end Row

private theorem unrepeated_of_once [Inhabited α] [Model α] {json : Json}
    (apart : ((Model.fields α).map Field.key).Nodup)
    (once : ¬Repeats α json) : Row.Unrepeated (Model.fields α) json := by
  cases json with
  | array items =>
    rintro field taken item stands ⟨fields, members, part, twice⟩
    rw [List.zip_map_left] at stands
    obtain ⟨⟨other, _⟩, listed, same⟩ := List.mem_map.mp stands
    obtain ⟨key, rfl⟩ := Prod.mk.inj same
    cases List.inj_on_of_nodup_map apart (List.of_mem_zip listed).1 taken key
    exact once ⟨fields, members, .listed listed part, twice⟩
  | object entries =>
    refine ⟨fun field taken => Nat.le_of_not_lt fun twice => ?_, ?_⟩
    · exact once ⟨_, _, .record rfl, field, taken, twice⟩
    · rintro field taken value among ⟨fields, members, part, twice⟩
      exact once ⟨fields, members, .member taken among part, twice⟩
  | null | bool | integer | float | string => trivial

private theorem Codec.agrees_model [Inhabited α] [Model α] (fits : AgreeingFields (Model.fields α))
    (apart : ((Model.fields α).map Field.key).Nodup) : Agrees α where
  toRecognising := recognising_model fits.toRecognising
  through {depth text value found} read direct := by
    obtain ⟨row, taken, rfl⟩ := run_map_iff.mp direct
    exact bind_eq_ok.mpr ⟨row, Row.through _ fits apart read taken, rfl⟩
  direct {depth text value found} read once through := by
    obtain ⟨row, taken, done⟩ := bind_eq_ok.mp through
    cases done
    exact run_map_iff.mpr ⟨row, Row.direct _ fits apart read (unrepeated_of_once apart once) taken, rfl⟩

private theorem decodeThrough_eq_ok [Codec α] {octets : List UInt8} {found : α} : decodeThrough α octets = .ok found ↔
    ∃ value, Json.parse octets = .ok value ∧ Codec.ofJson value.canonical = .ok found :=
  bind_eq_ok.trans (exists_congr fun _ => and_congr_right fun _ => Codec.mapError_eq_ok)

namespace Catalogue
variable {entry : Entry}

/-- All records of the library are decoded so, those inside others first. -/
theorem agreeing_of_mem : ∀ entry ∈ entries, AgreeingFields entry.fields := by
  simp only [entries, List.forall_mem_cons, List.not_mem_nil, false_imp_iff, implies_true, and_true]
  repeat' first
    | infer_instance
    | apply And.intro
    | exact AgreeingFields.nil
    | apply AgreeingFields.always
    | apply AgreeingFields.whenSome
    | apply Codec.agrees_option
    | apply Codec.agrees_list
    | apply Codec.agrees_model
    | decide

/-- Reads the text as a value, and the record from that. -/
def Entry.decodeThrough (entry : Entry) (octets : List UInt8) : Except Json.Error entry.Record :=
  letI := entry.blank
  letI := entry.model
  LedgerClient.decodeThrough entry.Record octets

/-- Some object that is decoded as a record, the value itself or one inside, repeats a key of it. -/
def Entry.Repeats (entry : Entry) (value : Json) : Prop :=
  letI := entry.blank
  letI := entry.model
  LedgerClient.Repeats entry.Record value

/-- Direct decoding and decoding through a value give the same record if both give one. A
record that is decoded directly is also decoded through the value, where the text is one. If
a record is decoded through the value only, the text has an object that is decoded as a
record and repeats a key of that record. -/
theorem decodings_agree (listed : entry ∈ entries) (octets : List UInt8) :
    (∀ record other, entry.decode octets = .ok record → entry.decodeThrough octets = .ok other → record = other) ∧
    (∀ record value, entry.decode octets = .ok record → Json.parse octets = .ok value →
      entry.decodeThrough octets = .ok record) ∧
    ∀ fault record, entry.decode octets = .error fault → entry.decodeThrough octets = .ok record →
      ∃ value, Json.parse octets = .ok value ∧ entry.Repeats value := by
  let := entry.blank
  let := entry.model
  have agrees : Codec.Agrees entry.Record := Codec.agrees_model (agreeing_of_mem entry listed) (keys_nodup entry listed)
  have through {record : entry.Record} {value : Json} (direct : entry.decode octets = .ok record)
      (read : Json.parse octets = .ok value) : entry.decodeThrough octets = .ok record :=
    decodeThrough_eq_ok.mpr ⟨value, read, agrees.through read direct⟩
  refine ⟨fun record other direct other' => ?_, fun record value => through, fun fault record refused other => ?_⟩
  · obtain ⟨value, read, _⟩ := decodeThrough_eq_ok.mp other'
    exact Except.ok.inj ((through direct read).symm.trans other')
  · obtain ⟨value, read, taken⟩ := decodeThrough_eq_ok.mp other
    refine ⟨value, read, Classical.byContradiction fun once => ?_⟩
    cases refused.symm.trans (agrees.direct read once taken)

/-- An object that repeats a key of no record. -/
def strayTwice : List UInt8 := Utf8.encode "\x7b\"zz\":0,\"zz\":[],\"key\":\"a\"\x7d".toList

/-- An object with a record inside that repeats a key of its own. -/
def innerTwice : List UInt8 := Utf8.encode "\x7b\"value\":\x7b\"uint\":1,\"uint\":7\x7d\x7d".toList

/-- The one is decoded both ways, the other through a value only. -/
theorem decodings_agree_tealKeyValue :
    (∃ record, (Entry.of TealKeyValue).decode strayTwice = .ok record ∧
      (Entry.of TealKeyValue).decodeThrough strayTwice = .ok record) ∧
    ∃ fault record value, (Entry.of TealKeyValue).decode innerTwice = .error fault ∧
      (Entry.of TealKeyValue).decodeThrough innerTwice = .ok record ∧
      Json.parse innerTwice = .ok value ∧ (Entry.of TealKeyValue).Repeats value := by
  have listed : Entry.of TealKeyValue ∈ entries := .tail _ (.tail _ (.tail _ (.head _)))
  obtain ⟨_, through, _⟩ := decodings_agree listed strayTwice
  obtain ⟨_, _, only⟩ := decodings_agree listed innerTwice
  have known : ((Entry.of TealKeyValue).decode strayTwice).isOk = true ∧ (Json.parse strayTwice).isOk = true ∧
      ((Entry.of TealKeyValue).decode innerTwice).isOk = false ∧
      ((Entry.of TealKeyValue).decodeThrough innerTwice).isOk = true := by
    decide +kernel
  obtain ⟨direct, parsed, refused, taken⟩ := known
  have ok {ε β : Type} {result : Except ε β} (done : result.isOk = true) : ∃ value, result = .ok value := by
    cases result with
    | ok value => exact ⟨value, rfl⟩
    | error => cases done
  obtain ⟨record, direct⟩ := ok direct
  obtain ⟨value, parsed⟩ := ok parsed
  obtain ⟨other, taken⟩ := ok taken
  obtain ⟨fault, refused⟩ : ∃ fault, (Entry.of TealKeyValue).decode innerTwice = .error fault := by
    cases result : (Entry.of TealKeyValue).decode innerTwice with
    | ok => rw [result] at refused; cases refused
    | error fault => exact ⟨fault, rfl⟩
  obtain ⟨inner, read, repeats⟩ := only fault other refused taken
  exact ⟨⟨record, direct, through record value direct parsed⟩, fault, other, inner, refused, taken, read, repeats⟩

end Catalogue
end LedgerClient

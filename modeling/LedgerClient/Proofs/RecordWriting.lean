import LedgerClient.Proofs.Base64Reading
import LedgerClient.Proofs.PrintedValues
import LedgerClient.Proofs.RecordReading

/-! What a value of one of the types is written to is read back to the value, unless it
holds a float or nests deeper than the reader goes. -/

namespace LedgerClient
open Json Json.Reader Json.Grammar

/-- A type whose values are read back from what is written of them. -/
class Codec.Faithful (α : Type) [Codec α] : Prop extends Codec.Local α where
  back (value : α) {depth : Nat} (exact : (Codec.write value).floatless = true)
    (nests : (Codec.write value).nesting ≤ depth) : Reads (Codec.read depth) (printed (Codec.write value)) value

/-- A type no value of which is written as null. -/
class Codec.Solid (α : Type) [Codec α] : Prop where
  not_null (value : α) : Codec.write value ≠ .null

namespace Codec

private theorem read?_visible {expected : String} {fits : Char → Bool} {reader : Reader α} {octet : UInt8}
    {input left : List UInt8} {value : α} (visible : isSpace octet = false) (fit : fits (character octet) = true)
    (read : reader (octet :: input) = .done value left) :
    read? expected fits reader (octet :: input) = .done value left := by
  rw [read?, ahead_of_next (Next.here visible input)]
  dsimp only
  rw [if_pos fit, placed_eq_done, read]

instance : Solid UInt64 := ⟨nofun⟩

instance : Faithful UInt64 where
  back n _ _ _ := by
    refine reads_of_done (Local.reads _) ?_
    have whole : ∃ whole : Integer, write n = .integer whole ∧ amount (.integer whole) = .ok n := by
      refine ⟨⟨n.toNat, by have := n.toNat_lt; omega⟩, rfl, ?_⟩
      rw [amount, if_neg (by simp), Int.toNat_natCast, UInt64.ofNat_toNat]
    obtain ⟨whole, written, same⟩ := whole
    obtain ⟨octet, others, text, first⟩ := printed_integer whole
    rw [written, text]
    refine read?_visible (visible_of_number first).1 (by simpa using first) ?_
    rw [← text, bind_of_done (number_printed whole), same]
    rfl

instance : Solid Bool := ⟨nofun⟩

instance : Faithful Bool where
  back value _ _ _ := by
    refine reads_of_done (Local.reads _) ?_
    cases value <;> rfl

private theorem solid_text (expected : String) (parse : String → Except String α) (print : α → String) :
    @Solid α (text expected parse print) :=
  letI := text expected parse print
  ⟨nofun⟩

private theorem faithful_text (expected : String) {parse : String → Except String α} {print : α → String}
    (same : ∀ value, parse (print value) = .ok value) : @Faithful α (text expected parse print) :=
  letI := text expected parse print
  { local_text expected parse print with
    back := fun value depth _ _ => by
      refine reads_of_done ((local_text expected parse print).reads _) ?_
      change Codec.read depth (printed (.string (print value))) = _
      rw [printed_string]
      refine read?_visible rfl rfl ?_
      change (string >>= _) (_ ++ [34]) = _
      rw [bind_of_done (string_printed (print value) []), same]
      rfl }

instance : Solid String := solid_text ..

instance : Faithful String := faithful_text _ fun _ => rfl

instance : Solid Bytes := solid_text ..

instance : Faithful Bytes := faithful_text _ fun bytes => by
  rw [String.toList_ofList, Base64.decode_encode]

instance : Faithful RawJson where
  back value depth exact nests := by
    have same : RawJson.ofJson value.json = value := by
      obtain ⟨json, canonical⟩ := value
      simp only [RawJson.ofJson, canonical]
    have read := (reads_value value.json exact nests).map RawJson.ofJson
    rwa [same] at read

/-- What is not null is read as something. -/
theorem reads_some [Codec α] {value : α} {depth : Nat} (exact : (write value).floatless = true)
    (not_null : write value ≠ .null) (reads : Reads (Codec.read depth) (printed (write value)) value) :
    Reads (Codec.read depth) (printed (write (some value))) (some value) := by
  intro rest ends
  obtain ⟨octet, others, same, visible, _, letter⟩ := starts_printed exact
  obtain ⟨blank, all, read⟩ := reads rest ends
  refine ⟨blank, all, ?_⟩
  change (ahead >>= _) (printed (write value) ++ rest) = _
  rw [same, List.cons_append] at read ⊢
  rw [ahead_of_next (Next.here visible _)]
  change Takes _ _ _ _
  split
  next null => exact absurd (letter (eq_of_character (k := 110) (Option.some.inj null) rfl)) not_null
  next => exact bind_of_done read _

private theorem reads_none [Codec α] (depth : Nat) :
    Reads (Codec.read depth) (printed (write (none : Option α))) (none : Option α) :=
  fun _ _ => ⟨[], nofun, rfl⟩

private theorem faithful_option [Codec α] (solid : Solid α) (here : Faithful α) : Faithful (Option α) where
  toLocal := local_option here.toLocal
  back value depth exact nests := by
    cases value with
    | none => exact reads_none depth
    | some value => exact reads_some exact (Solid.not_null value) (here.back value exact nests)

instance solid_list [Codec α] : Solid (List α) := ⟨nofun⟩

private theorem faithful_list [Codec α] (here : Faithful α) : Faithful (List α) where
  toLocal := local_list here.toLocal
  back values depth exact nests := by
    refine reads_of_done ((local_list here.toLocal).reads depth) ?_
    cases depth with
    | zero => cases nests
    | succ depth =>
      have exact := List.forall_mem_map.mp (floatlessItems_iff.mp exact)
      have nests := List.forall_mem_map.mp (nestingItems_le.mp (Nat.le_of_succ_le_succ nests))
      have read := list_of_reads (fun value => printed (write value))
        (fun value among => here.back value (exact value among) (nests value among))
        (fun value among => .printed (exact value among)) []
      change Codec.read _ (printed (.array (values.map write))) = _
      rw [printed_array, List.map_map]
      exact read?_visible rfl rfl read

end Codec

/-- A field whose values are read back from what is written of them, as far as they are fit for
it, and are left out only if they are what the field has by default. -/
structure Field.Faithful (field : Field) (fit : field.Value → Prop) : Prop where
  fits : @Codec.Local field.Value field.codec
  omits : ∀ value, field.omitted value = true → value = field.blank
  back : ∀ value, fit value → ∀ depth, (field.codec.write value).floatless = true →
    (field.codec.write value).nesting ≤ depth →
    Reads (field.codec.read depth) (printed (field.codec.write value)) value

/-- A value that is written as null is what the field has by default. This rules out an
optional value of JSON that is null and there, and nothing else. -/
def Field.Settled (field : Field) (value : field.Value) : Prop :=
  field.codec.write value = .null → value = field.blank

namespace Row

/-- All values of the row are fit. -/
def All (fit : (field : Field) → field.Value → Prop) : {fields : List Field} → Row fields → Prop
  | [], _ => True
  | field :: _, row => fit field row.1 ∧ All fit row.2

theorem All.imp {fit other : (field : Field) → field.Value → Prop} : {fields : List Field} →
    (∀ field ∈ fields, ∀ value, fit field value → other field value) →
    {row : Row fields} → row.All fit → row.All other
  | [], _, _, _ => trivial
  | _ :: _, implies, _, ⟨here, others⟩ =>
    have ⟨first, implies⟩ := List.forall_mem_cons.mp implies
    ⟨first _ here, others.imp implies⟩

private theorem all_true : {fields : List Field} → (row : Row fields) → row.All fun _ _ => True
  | [], _ => trivial
  | _ :: _, row => ⟨trivial, all_true row.2⟩

section
variable {field : Field} {fields : List Field} {value : field.Value}

theorem members_omitted (omitted : field.omitted value = true) (row : Row fields) :
    @members (field :: fields) (value, row) = row.members := if_pos omitted

theorem members_written (written : ¬field.omitted value = true) (row : Row fields) :
    @members (field :: fields) (value, row) = (field.key, field.codec.write value) :: row.members := if_neg written

end

/-- The members of a row have the keys of its fields, or of some of them. -/
theorem members_keys : {fields : List Field} → (row : Row fields) →
    (row.members.map Prod.fst).Sublist (fields.map Field.key)
  | [], _ => .slnil
  | field :: _, (value, row) => by
    by_cases omitted : field.omitted value = true
    · rw [members_omitted omitted]
      exact (members_keys row).cons _
    · rw [members_written omitted]
      exact (members_keys row).cons_cons _

/-- The members of an object with the texts of their values. -/
def texts (members : List (String × Json)) : List (String × List UInt8) :=
  members.map fun member => (member.1, printed member.2)

private theorem absent_texts {key : String} {members : List (String × Json)} (absent : key ∉ members.map Prod.fst) :
    Absent key (texts members) := by
  intro text among
  obtain ⟨member, among, same⟩ := List.mem_map.mp among
  exact absent (List.mem_map.mpr ⟨member, among, congrArg Prod.fst same⟩)

private theorem distinct_members {fields : List Field} (apart : (fields.map Field.key).Nodup) (row : Row fields) :
    Distinct (fields.map Field.key) (texts row.members) := by
  have keys : (texts row.members).map Prod.fst = row.members.map Prod.fst := by
    rw [texts, List.map_map]
    rfl
  exact ((keys ▸ List.filter_sublist.map Prod.fst).trans (members_keys row)).nodup apart

variable {fit : (field : Field) → field.Value → Prop} {depth : Nat}

/-- The members of a row say what stands in it. -/
theorem replaces_members : {fields : List Field} → (fields.map Field.key).Nodup →
    (∀ field ∈ fields, field.Faithful (fit field)) → {row : Row fields} → row.All fit →
    (∀ member ∈ row.members, member.2.floatless = true ∧ member.2.nesting ≤ depth) →
    row.Replaces depth (texts row.members) (blank fields)
  | [], _, _, _, _, _ => trivial
  | field :: fields, apart, faithful, (value, row), ⟨fits, all⟩, sound => by
    obtain ⟨different, apart⟩ := List.nodup_cons.mp apart
    obtain ⟨here, faithful⟩ := List.forall_mem_cons.mp faithful
    have absent : Absent field.key (texts row.members) :=
      absent_texts fun among => different ((members_keys row).subset among)
    by_cases omitted : field.omitted value = true
    · rw [members_omitted omitted] at sound ⊢
      exact ⟨fun text among => absurd among (absent text), fun _ => here.omits value omitted,
        replaces_members apart faithful all sound⟩
    · rw [members_written omitted] at sound ⊢
      obtain ⟨⟨exact, nests⟩, sound⟩ := List.forall_mem_cons.mp sound
      refine ⟨fun text among => ?_, fun none => absurd List.mem_cons_self (none _),
        (replaces_members apart faithful all sound).congr fun other taken text => ?_⟩
      · rcases List.mem_cons.mp among with same | among
        · obtain rfl := (Prod.mk.inj same).2
          exact run_of_reads (here.back value fits depth exact nests)
        · exact absurd among (absent text)
      · refine List.mem_cons.trans (or_iff_right fun same => different ?_)
        have key : other.key = field.key := (Prod.mk.inj same).1
        exact key ▸ List.mem_map_of_mem taken

end Row

section
variable [Inhabited α] [Model α]

/-- A record is read back from what is written of it if its values are. -/
theorem reads_written (fit : (field : Field) → field.Value → Prop) (apart : (Model.keys α).Nodup)
    (faithful : ∀ field ∈ Model.fields α, field.Faithful (fit field)) {value : α}
    (all : (Model.toRow value).All fit) {depth : Nat} (exact : (Codec.write value).floatless = true)
    (nests : (Codec.write value).nesting ≤ depth) : Reads (Codec.read depth) (printed (Codec.write value)) value := by
  cases depth with
  | zero => cases nests
  | succ depth =>
    have exact := floatlessMembers_iff.mp exact
    have nests := nestingMembers_le.mp (Nat.le_of_succ_le_succ nests)
    have object := object_printed fun member among => text_printed member.2 (exact member among)
    have fits : LocalFields (Model.fields α) := ⟨fun field taken => (faithful field taken).fits⟩
    refine reads_record fits apart object (Row.distinct_members apart (Model.toRow value)) ?_
    rw [Model.toRow_default]
    exact Row.replaces_members apart faithful all fun member among => ⟨exact member among, nests member among⟩

private theorem Codec.solid_model : Codec.Solid α := ⟨nofun⟩

end

/-- All fields are read back from what is written of them. -/
structure FaithfulFields (fit : (field : Field) → field.Value → Prop) (fields : List Field) : Prop where
  each : ∀ field ∈ fields, field.Faithful (fit field)

namespace FaithfulFields
variable {fit : (field : Field) → field.Value → Prop} {key : String} {fields : List Field}

private theorem nil : FaithfulFields fit [] := ⟨nofun⟩

private theorem cons {field : Field} (here : field.Faithful (fit field)) (rest : FaithfulFields fit fields) :
    FaithfulFields fit (field :: fields) := ⟨List.forall_mem_cons.mpr ⟨here, rest.each⟩⟩

private theorem always [Codec α] [Inhabited α] (here : Codec.Faithful α) (rest : FaithfulFields fit fields) :
    FaithfulFields fit (.always key α :: fields) :=
  cons ⟨here.toLocal, nofun, fun value _ _ exact nests => here.back value exact nests⟩ rest

private theorem whenSome [Codec α] (here : Codec.Faithful (Option α)) (rest : FaithfulFields fit fields) :
    FaithfulFields fit (.whenSome key α :: fields) :=
  cons ⟨here.toLocal, fun _ none => Option.isNone_iff_eq_none.mp none,
    fun value _ _ exact nests => here.back value exact nests⟩ rest

private theorem reads_settled {value : Option RawJson} (settled : Codec.write value = .null → value = none)
    {depth : Nat}
    (exact : (Codec.write value).floatless = true) (nests : (Codec.write value).nesting ≤ depth) :
    Reads (Codec.read depth) (printed (Codec.write value)) value := by
  cases value with
  | none => exact Codec.reads_none depth
  | some value =>
    refine Codec.reads_some exact (fun null => ?_) (Codec.Faithful.back value exact nests)
    cases settled null

private theorem alwaysRaw (rest : FaithfulFields Field.Settled fields) :
    FaithfulFields Field.Settled (.always key (Option RawJson) :: fields) :=
  cons ⟨Codec.local_option inferInstance, nofun, fun _ settled _ exact nests => reads_settled settled exact nests⟩ rest

private theorem whenSomeRaw (rest : FaithfulFields Field.Settled fields) :
    FaithfulFields Field.Settled (.whenSome key RawJson :: fields) :=
  cons ⟨Codec.local_option inferInstance, fun _ none => Option.isNone_iff_eq_none.mp none,
    fun _ settled _ exact nests => reads_settled settled exact nests⟩ rest

end FaithfulFields

private theorem Codec.faithful_model [Inhabited α] [Model α] (apart : (Model.keys α).Nodup)
    (faithful : FaithfulFields (fun _ _ => True) (Model.fields α)) : Codec.Faithful α where
  toLocal := local_model ⟨fun field taken => (faithful.each field taken).fits⟩
  back value _ exact nests :=
    reads_written (fun _ _ => True) apart faithful.each (Row.all_true (Model.toRow value)) exact nests

/-- Fit values hold no optional value of JSON that is null and there. -/
structure Field.NoNull (fit : (field : Field) → field.Value → Prop) : Prop where
  always : ∀ key value, fit (.always key (Option RawJson)) value → value ≠ some ⟨.null, rfl⟩
  whenSome : ∀ key value, fit (.whenSome key RawJson) value → value ≠ some ⟨.null, rfl⟩

/-- All values of the fields that are fit are settled. -/
structure SettledFields (fit : (field : Field) → field.Value → Prop) (fields : List Field) : Prop where
  each : ∀ field ∈ fields, ∀ value, fit field value → field.Settled value

namespace SettledFields
variable {fit : (field : Field) → field.Value → Prop} {key : String} {fields : List Field}

private theorem nil : SettledFields fit [] := ⟨nofun⟩

private theorem cons {field : Field} (here : ∀ value, fit field value → field.Settled value)
    (rest : SettledFields fit fields) :
    SettledFields fit (field :: fields) := ⟨List.forall_mem_cons.mpr ⟨here, rest.each⟩⟩

private theorem solid [Codec α] [Inhabited α] (solid : Codec.Solid α) (rest : SettledFields fit fields) :
    SettledFields fit (.always key α :: fields) :=
  cons (fun value _ null => absurd null (solid.not_null value)) rest

private theorem raw (rest : SettledFields fit fields) : SettledFields fit (.always key RawJson :: fields) := by
  refine cons (fun value _ null => ?_) rest
  obtain ⟨json, canonical⟩ := value
  cases null
  rfl

private theorem whenSome [Codec α] (solid : Codec.Solid α) (rest : SettledFields fit fields) :
    SettledFields fit (.whenSome key α :: fields) := by
  refine cons (fun value _ null => ?_) rest
  cases value with
  | none => rfl
  | some value => exact absurd null (solid.not_null value)

private theorem none_of_null {value : Option RawJson} (not_null : value ≠ some ⟨.null, rfl⟩)
    (null : Codec.write value = .null) : value = none := by
  rcases value with _ | ⟨json, canonical⟩
  · rfl
  · cases null
    exact absurd rfl not_null

private theorem alwaysRaw (no_null : Field.NoNull fit) (rest : SettledFields fit fields) :
    SettledFields fit (.always key (Option RawJson) :: fields) :=
  cons (fun value fits => none_of_null (no_null.always key value fits)) rest

private theorem whenSomeRaw (no_null : Field.NoNull fit) (rest : SettledFields fit fields) :
    SettledFields fit (.whenSome key RawJson :: fields) :=
  cons (fun value fits => none_of_null (no_null.whenSome key value fits)) rest

end SettledFields

namespace Catalogue

theorem faithful_of_mem : ∀ entry ∈ entries, FaithfulFields Field.Settled entry.fields := by
  simp only [entries, List.forall_mem_cons, List.not_mem_nil, false_imp_iff, implies_true, and_true]
  repeat' first
    | infer_instance
    | apply And.intro
    | exact FaithfulFields.nil
    | apply FaithfulFields.alwaysRaw
    | apply FaithfulFields.whenSomeRaw
    | apply FaithfulFields.always
    | apply FaithfulFields.whenSome
    | apply Codec.faithful_option
    | apply Codec.faithful_list
    | apply Codec.solid_model
    | apply Codec.faithful_model
    | decide +kernel

/-- No more is asked for than that optional values of JSON are not null and there. -/
theorem settled_of_mem {fit : (field : Field) → field.Value → Prop} (no_null : Field.NoNull fit) :
    ∀ entry ∈ entries, SettledFields fit entry.fields := by
  simp only [entries, List.forall_mem_cons, List.not_mem_nil, false_imp_iff, implies_true, and_true]
  repeat' first
    | infer_instance
    | apply And.intro
    | exact SettledFields.nil
    | apply SettledFields.raw
    | apply SettledFields.alwaysRaw no_null
    | apply SettledFields.whenSomeRaw no_null
    | apply SettledFields.whenSome
    | apply SettledFields.solid
    | apply Codec.solid_model

end Catalogue
end LedgerClient

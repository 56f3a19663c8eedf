import LedgerClient.Proofs.ListReading
import LedgerClient.Proofs.ReadValues

/-! What the readers of types take from a text, told from the text. A record that was read
from an object has been read from the members of that object. -/

namespace LedgerClient
open Json Json.Reader Json.Grammar

namespace Codec

/-- The text of a string between blanks. -/
inductive Quoted (content : String) : List UInt8 → Prop
  | quotes {before spelling after : List UInt8} (front : Blank before) (spelt : Spells spelling content.toList)
      (back : Blank after) : Quoted content (before ++ 34 :: (spelling ++ 34 :: after))

theorem quoted_printed (content : String) : Quoted content (Json.printed (.string content)) := by
  rw [printed_string]
  exact .quotes (show Blank [] from nofun) (spells_escaped _) nofun

theorem lift_eq_done {result : Except Misfit α} {input left : List UInt8} {value : α} :
    lift result input = .done value left ↔ result = .ok value ∧ left = input := by
  cases result with
  | ok found =>
    constructor
    · intro read
      cases read
      exact ⟨rfl, rfl⟩
    · rintro ⟨same, rfl⟩
      cases same
      rfl
  | error cause => exact iff_of_false (fails_misfit _ _ _ _) fun same => nomatch same.1

theorem mapError_eq_ok {result : Except ε α} {f : ε → δ} {value : α} :
    result.mapError f = .ok value ↔ result = .ok value := by
  cases result with
  | ok found => exact ⟨fun same => congrArg _ (Except.ok.inj same), fun same => congrArg _ (Except.ok.inj same)⟩
  | error fault => exact iff_of_false nofun nofun

section
variable {expected : String} {parse : String → Except String α} {print : α → String} {depth : Nat} {value : α}

private theorem text_eq_done {input left : List UInt8} :
    (text expected parse print).read depth input = .done value left ↔
    ∃ content before spelling, parse content = .ok value ∧ Blank before ∧ Spells spelling content.toList ∧
      input = before ++ 34 :: (spelling ++ 34 :: left) := by
  refine read?_eq_done.trans ⟨?_, ?_⟩
  · rintro ⟨mark, rest, seen, fit, read⟩
    cases eq_of_character (k := 34) (of_decide_eq_true fit) rfl
    obtain ⟨_, _, one, stringed⟩ := bind_eq_done.mp read
    cases one
    obtain ⟨content, _, string, lifted⟩ := bind_eq_done.mp stringed
    obtain ⟨parsed, rfl⟩ := lift_eq_done.mp lifted
    obtain ⟨before, front, rfl⟩ := exists_blank seen
    obtain ⟨spelling, spelt, same⟩ := spells_of_string string
    exact ⟨content, before, spelling, mapError_eq_ok.mp parsed, front, spelt, congrArg (before ++ 34 :: ·) same⟩
  · rintro ⟨content, before, spelling, parsed, front, spelt, rfl⟩
    refine ⟨34, _, Next.behind front rfl _, rfl, ?_⟩
    change (string >>= _) (spelling ++ 34 :: left) = _
    rw [bind_of_done (string_of_spells spelt left), String.ofList_toList]
    exact lift_eq_done.mpr ⟨mapError_eq_ok.mpr parsed, rfl⟩

theorem recognises_text : Recognises ((text expected parse print).read depth) := by
  intro input found left read _
  obtain ⟨content, before, spelling, parsed, front, spelt, rfl⟩ := text_eq_done.mp read
  refine ⟨before ++ 34 :: (spelling ++ [34]), by simp,
    reads_of_done ((local_text expected parse print).reads depth) ?_⟩
  exact text_eq_done.mpr ⟨content, before, spelling, parsed, front, spelt, rfl⟩

theorem run_text_iff {octets : List UInt8} : ((text expected parse print).read depth).run octets = .ok value ↔
    ∃ content, Quoted content octets ∧ parse content = .ok value := by
  rw [run_eq_ok_iff]
  constructor
  · rintro ⟨after, back, read⟩
    obtain ⟨content, before, spelling, parsed, front, spelt, rfl⟩ := text_eq_done.mp read
    exact ⟨content, .quotes front spelt back, parsed⟩
  · rintro ⟨content, ⟨front, spelt, back⟩, parsed⟩
    exact ⟨_, back, text_eq_done.mpr ⟨content, _, _, parsed, front, spelt, rfl⟩⟩

end

theorem string_eq_done {depth : Nat} {input left : List UInt8} {content : String} :
    (Codec.read depth : Reader String) input = .done content left ↔ ∃ before spelling, Blank before ∧
      Spells spelling content.toList ∧ input = before ++ 34 :: (spelling ++ 34 :: left) := by
  refine text_eq_done.trans ⟨?_, ?_⟩
  · rintro ⟨_, before, spelling, same, parts⟩
    cases same
    exact ⟨before, spelling, parts⟩
  · rintro ⟨before, spelling, parts⟩
    exact ⟨content, before, spelling, rfl, parts⟩

theorem recognises_string (depth : Nat) : Recognises (Codec.read depth : Reader String) := recognises_text

theorem run_string_iff {depth : Nat} {text : List UInt8} {content : String} :
    (Codec.read depth : Reader String).run text = .ok content ↔ Quoted content text := by
  refine run_text_iff.trans ⟨?_, fun quoted => ⟨content, quoted, rfl⟩⟩
  rintro ⟨_, quoted, same⟩
  cases same
  exact quoted

theorem quoted_unique {text : List UInt8} {content other : String} (quoted : Quoted content text)
    (quoted' : Quoted other text) : content = other := by
  have read : (Codec.read 0 : Reader String).run text = _ := run_string_iff.mpr quoted
  cases read.symm.trans (run_string_iff.mpr quoted')
  rfl

/-- What a value that may be missing is read as: nothing, if it is null. -/
def optional (json : Json) : Option RawJson := if json = .null then none else some (.ofJson json)

theorem optional_eq_done {depth : Nat} {input left : List UInt8} {data : Option RawJson} :
    (Codec.read depth : Reader (Option RawJson)) input = .done data left ↔
      ∃ json, value depth input = .done json left ∧ optional json = data := by
  change (ahead >>= _) input = _ ↔ _
  rw [ahead_bind, peek_bind]
  by_cases letter : (input.dropWhile isSpace).head?.map character = some 'n'
  · obtain ⟨octet, rest, seen, same⟩ := next_of_head letter
    cases eq_of_character (k := 110) same rfl
    obtain ⟨list, object, start⟩ := value_eq_start depth
    have null : value depth input = (word ['u', 'l', 'l'] >>= fun _ => pure .null) rest := by
      rw [start]
      exact ahead_of_next seen _
    rw [letter, seen, null]
    change (word ['u', 'l', 'l'] >>= fun _ => pure none) rest = _ ↔ _
    constructor
    · intro read
      obtain ⟨_, _, word, done⟩ := bind_eq_done.mp read
      cases done
      exact ⟨.null, bind_of_done word _, rfl⟩
    · rintro ⟨json, read, rfl⟩
      obtain ⟨_, _, word, done⟩ := bind_eq_done.mp read
      cases done
      exact bind_of_done word _
  · have not_null {json : Json} (read : value depth input = .done json left) : json ≠ .null := by
      rintro rfl
      obtain ⟨rest, seen⟩ := next_of_null read
      rw [seen] at letter
      exact letter rfl
    change Takes _ _ _ _ ↔ _
    split
    next null => exact absurd null letter
    next =>
      constructor
      · intro read
        obtain ⟨raw, _, inner, done⟩ := bind_eq_done.mp read
        cases done
        obtain ⟨json, _, here, done⟩ := bind_eq_done.mp inner
        cases done
        rw [value_blank] at here
        exact ⟨json, here, if_neg (not_null here)⟩
      · rintro ⟨json, read, rfl⟩
        rw [optional, if_neg (not_null read)]
        rw [← value_blank] at read
        have raw : (Codec.read depth : Reader RawJson) (input.dropWhile isSpace) = .done (.ofJson json) left :=
          bind_of_done read _
        exact bind_of_done raw _

theorem recognises_optional (depth : Nat) : Recognises (Codec.read depth : Reader (Option RawJson)) := by
  intro input data left read ends
  obtain ⟨json, here, rfl⟩ := optional_eq_done.mp read
  obtain ⟨text, same, reads⟩ := recognises_value depth here ends
  refine ⟨text, same, fun rest ends => ?_⟩
  obtain ⟨blank, all, again⟩ := reads rest ends
  exact ⟨blank, all, optional_eq_done.mpr ⟨json, again, rfl⟩⟩

theorem run_optional_iff {depth : Nat} {text : List UInt8} {data : Option RawJson} :
    (Codec.read depth : Reader (Option RawJson)).run text = .ok data ↔
      ∃ json, (value depth).run text = .ok json ∧ optional json = data := by
  simp only [run_eq_ok_iff, optional_eq_done]
  constructor
  · rintro ⟨blank, all, json, read, same⟩
    exact ⟨json, ⟨blank, all, read⟩, same⟩
  · rintro ⟨json, ⟨blank, all, read⟩, same⟩
    exact ⟨blank, all, json, read, same⟩

end Codec

namespace Slots
variable {depth : Nat}

theorem recognises_member : {fields : List Field} → LocalFields fields →
    (∀ field ∈ fields, Recognises (field.codec.read depth)) → (key : String) → (slots : Slots fields) →
    RecognisesMember (member depth key slots)
  | [], _, _, _, _ => recognises_skip.member (.refl skip)
  | field :: fields, fits, recognises, key, (slot, rest) => by
    obtain ⟨here, others⟩ := List.forall_mem_cons.mp recognises
    by_cases same : field.key = key
    · cases slot with
      | some value =>
        rw [member_again same]
        exact (fails_misfit _).recognisesMember
      | none =>
        rw [member_here same]
        exact (here.map _).member ((fits.head.passes depth).still fun _ => .pure _)
    · rw [member_other same]
      exact (recognises_member fits.tail others key rest).map _

/-- A step that takes a member with the key of a field reads its value for the field. -/
theorem taken_of_member {key : String} {input behind left : List UInt8} (colon : Next 58 input behind) :
    {fields : List Field} → (fields.map Field.key).Nodup → {slots next : Slots fields} →
    member depth key slots input = .done next left → ∀ field ∈ fields, field.key = key →
    ∃ value, field.codec.read depth behind = .done value left
  | first :: fields, apart, (slot, rest), next, read, field, taken, named => by
    obtain ⟨alone, apart⟩ := List.nodup_cons.mp apart
    by_cases same : first.key = key
    · cases slot with
      | some value =>
        rw [member_again same] at read
        exact absurd read (fails_misfit _ _ _ _)
      | none =>
        rw [member_here same, bind_of_done (colon_eq_done.mpr colon)] at read
        obtain ⟨value, _, here, done⟩ := bind_eq_done.mp read
        cases done
        rcases List.mem_cons.mp taken with rfl | other
        · exact ⟨value, here⟩
        · exact absurd (List.mem_map.mpr ⟨field, other, named.trans same.symm⟩) alone
    · rw [member_other same] at read
      obtain ⟨_, _, step, done⟩ := bind_eq_done.mp read
      cases done
      have other : field ∈ fields := (List.mem_cons.mp taken).resolve_left fun equal => same (equal ▸ named)
      exact taken_of_member colon apart step field other named

private theorem run_of_stepsTo {fields : List Field} (apart : (fields.map Field.key).Nodup)
    {members : List (String × List UInt8)} {slots final : Slots fields}
    (steps : StepsTo (fun key slots => member depth key slots) final members slots) :
    ∀ field ∈ fields, ∀ text, (field.key, text) ∈ members → ∃ value, (field.codec.read depth).run text = .ok value := by
  induction members generalizing slots with
  | nil => exact nofun
  | cons entry members ih =>
    obtain ⟨next, reads, steps⟩ := steps
    intro field taken text among
    rcases List.mem_cons.mp among with same | among
    · obtain ⟨blank, all, read⟩ := reads [] nofun [] ends_nil
      rw [List.append_nil, List.append_nil] at read
      cases same
      obtain ⟨value, here⟩ := taken_of_member (Next.here rfl text) apart read field taken rfl
      exact ⟨value, run_eq_ok_iff.mpr ⟨blank, all, here⟩⟩
    · exact ih steps field taken text among

end Slots

namespace Row

/-- A record is read from a list, or from an object whose members decode for the fields. -/
theorem taken_of_read {name : String} {fields : List Field} {depth : Nat} (fits : LocalFields fields)
    (apart : (fields.map Field.key).Nodup) (recognises : ∀ field ∈ fields, Recognises (field.codec.read depth))
    {input left : List UInt8} {row : Row fields} (read : read name fields (depth + 1) input = .done row left) :
    (∃ before rest, Blank before ∧ input = before ++ 91 :: rest ∧
      enclosed (items depth fields true) closeList rest = .done row left) ∨
    ∃ members before inside, Blank before ∧ Inside members inside ∧ input = before ++ 123 :: (inside ++ 125 :: left) ∧
      ∀ field ∈ fields, ∀ text, (field.key, text) ∈ members →
        ∃ value, (field.codec.read depth).run text = .ok value := by
  obtain ⟨mark, rest, seen, fit, nested⟩ := Codec.read?_eq_done.mp read
  obtain ⟨before, front, rfl⟩ := exists_blank seen
  obtain ⟨_, _, peeked, form⟩ := bind_eq_done.mp nested
  cases peeked
  change Takes _ _ _ _ at form
  split at form
  next bracket =>
    cases eq_of_character (k := 91) (Option.some.inj bracket) rfl
    exact .inl ⟨before, rest, front, rfl, form⟩
  next other =>
    have brace : character mark = '\x7b' := by
      simp only [Bool.or_eq_true, decide_eq_true_eq] at fit
      exact fit.resolve_left fun bracket => other (congrArg some bracket)
    cases eq_of_character (k := 123) brace rfl
    obtain ⟨slots, _, object, done⟩ := bind_eq_done.mp form
    cases done
    obtain ⟨members, inside, sound, steps, rfl⟩ :=
      object_taken (Slots.recognises_member fits recognises) object
    exact .inr ⟨members, before, inside, front, sound, rfl, Slots.run_of_stepsTo apart steps⟩

end Row
end LedgerClient

import Mathlib.Data.List.DropRight
import LedgerClient.Proofs.Base64Reading
import LedgerClient.Proofs.RecordForms
import LedgerClient.Proofs.RoundTrip

/-! Octets in records. A field that stands for octets takes the standard text of some octets,
of which padding may be missing, and no other string; so the octets are told by any string
that is taken, and the string by the octets up to its padding. -/

namespace LedgerClient

namespace Base64

/-- A text without the padding behind it. -/
def body (text : List Char) : List Char := text.rdropWhile (· = '=')

/-- The text is the standard one of the octets, of which padding may be missing. -/
structure Denotes (text : List Char) (octets : List UInt8) : Prop where
  body : body text = Base64.body (encode octets)
  padding : text.count '=' ≤ (encode octets).count '='

private theorem symbol_ne_pad {n : Nat} (small : n < 64) : symbol n ≠ '=' := by
  obtain ⟨_, other, written⟩ := value?_sign small
  intro same
  rw [same] at written
  exact other (List.cons.inj written).1.symm

private theorem pad_not_mem (octets : List UInt8) : '=' ∉ (symbols octets).map symbol := by
  intro among
  obtain ⟨n, inside, same⟩ := List.mem_map.mp among
  exact symbol_ne_pad (Bits.toSymbols_lt n inside) same

private theorem body_append_padding {front : List Char} (none : '=' ∉ front) (count : Nat) :
    body (front ++ List.replicate count '=') = front := by
  have last : front.reverse.dropWhile (· = '=') = front.reverse := by
    rw [List.dropWhile_eq_self_iff]
    intro some padded
    exact none (List.mem_reverse.mp (of_decide_eq_true padded ▸ List.getElem_mem some))
  have padding : ∀ c ∈ List.replicate count '=', decide (c = '=') = true :=
    fun c among => decide_eq_true (List.eq_of_mem_replicate among)
  rw [body, List.rdropWhile, List.reverse_append, List.reverse_replicate, List.dropWhile_append_of_pos padding, last,
    List.reverse_reverse]

private theorem count_append_padding {front : List Char} (none : '=' ∉ front) (count : Nat) :
    (front ++ List.replicate count '=').count '=' = count := by
  rw [List.count_append, List.count_eq_zero_of_not_mem none, List.count_replicate_self, Nat.zero_add]

private theorem denotes_iff {text : List Char} {octets : List UInt8} : Denotes text octets ↔
    ∃ count ≤ missing octets, text = (symbols octets).map symbol ++ List.replicate count '=' := by
  have none := pad_not_mem octets
  have standard : body (encode octets) = (symbols octets).map symbol ∧ (encode octets).count '=' = missing octets := by
    rw [encode_eq]
    exact ⟨body_append_padding none _, count_append_padding none _⟩
  constructor
  · rintro ⟨same, part⟩
    have padding : text.rtakeWhile (· = '=') = List.replicate (text.rtakeWhile (· = '=')).length '=' :=
      List.eq_replicate_of_mem fun c among => by simpa using List.mem_rtakeWhile_imp among
    have whole : body text ++ text.rtakeWhile (· = '=') = text := List.rdropWhile_append_rtakeWhile
    rw [same, standard.1, padding] at whole
    rw [← whole, count_append_padding none, standard.2] at part
    exact ⟨_, part, whole.symm⟩
  · rintro ⟨count, part, rfl⟩
    exact ⟨(body_append_padding none count).trans standard.1.symm,
      (count_append_padding none count).trans_le (part.trans_eq standard.2.symm)⟩

private theorem decode_text_iff {text : List Char} {octets : List UInt8} :
    decode (Utf8.encode text) = .ok octets ↔ Denotes text octets := by
  have written (count : Nat) : (symbols octets).map sign ++ List.replicate count pad =
      Utf8.encode ((symbols octets).map symbol ++ List.replicate count '=') := by
    rw [Utf8.encode_append, encode_symbols Bits.toSymbols_lt, encode_padding]
  rw [decode_eq_ok_iff, denotes_iff]
  refine exists_congr fun count => and_congr_right fun _ => ?_
  rw [written]
  exact ⟨fun same => Utf8.encode_injective same, congrArg Utf8.encode⟩

end Base64

open Json Json.Reader Json.Grammar

namespace Codec

private theorem Quoted.unique {content other : String} {text : List UInt8} (quoted : Quoted content text)
    (quoted' : Quoted other text) : content = other :=
  have read : (Codec.read 0 : Reader String).run text = .ok content := run_string_iff.mpr quoted
  Except.ok.inj (read.symm.trans (run_string_iff.mpr quoted'))

/-- Octets are read from a string that denotes them, and from nothing else. -/
theorem run_bytes_iff {depth : Nat} {text : List UInt8} {bytes : Bytes} {content : String}
    (quoted : Quoted content text) :
    (Codec.read depth : Reader Bytes).run text = .ok bytes ↔ Base64.Denotes content.toList bytes.octets := by
  constructor
  · intro run
    obtain ⟨other, quoted', read⟩ := run_text_iff.mp run
    cases quoted.unique quoted'
    split at read
    next octets done =>
      cases read
      exact Base64.decode_text_iff.mp done
    next => cases read
  · intro denotes
    refine run_text_iff.mpr ⟨content, quoted, ?_⟩
    rw [Base64.decode_text_iff.mpr denotes]

private theorem bytes_succeed_iff {depth : Nat} {text : List UInt8} {content : String} (quoted : Quoted content text) :
    (∃ bytes, (Codec.read depth : Reader Bytes).run text = .ok bytes) ↔ ∃ read, Base64.Denotes content.toList read := by
  simp only [run_bytes_iff quoted]
  exact ⟨fun ⟨bytes, denotes⟩ => ⟨bytes.octets, denotes⟩, fun ⟨read, denotes⟩ => ⟨⟨read⟩, denotes⟩⟩

end Codec

private theorem Row.Has.written {field : Field} {value : field.Value} (kept : field.omitted value = false)
    {fields : List Field}
    {row : Row fields} (has : row.Has value) : (field.key, field.codec.write value) ∈ row.members := by
  induction has with
  | @here _ row same =>
    cases same
    exact (members_written (ne_true_of_eq_false kept) row.2) ▸ List.mem_cons_self
  | @there other _ row _ ih =>
    by_cases omitted : other.omitted row.1 = true
    · exact (members_omitted omitted row.2) ▸ ih
    · exact (members_written omitted row.2) ▸ List.mem_cons_of_mem _ ih

namespace Catalogue
variable {entry : Entry} {octets : List UInt8}

private theorem Entry.Has.written {record : entry.Record} {field : Field} {value : field.Value}
    (has : entry.Has record field value) (kept : field.omitted value = false) :
    ∃ members, entry.write record = .object members ∧ (field.key, field.codec.write value) ∈ members :=
  ⟨_, rfl, Row.Has.written kept has⟩

/-- A field of octets, in any record, is read from a string just if that is the standard text
of some octets, of which padding may be missing. These octets are what the record has then, so
strings that differ in more are never read as the same; and it is written with the standard
text itself. The same goes for each item of a field of lists. -/
theorem octets_by_text (listed : entry ∈ entries) (depth : Nat) {key : String} {front back : List (String × List UInt8)}
    {text : List UInt8} (given : Given entry.keys (front ++ (key, text) :: back) octets) :
    (∀ read, Base64.Denotes (Base64.encode read) read) ∧
    (∀ content other read, Base64.Denotes content read → Base64.Denotes other read →
      Base64.body content = Base64.body other) ∧
    (Field.always key Bytes ∈ entry.fields → ∀ content, Codec.Quoted content text →
      ((∃ record, (entry.reader (depth + 1)).run octets = .ok record) ↔
        (∃ read, Base64.Denotes content.toList read) ∧ Distinct entry.keys (front ++ (key, text) :: back) ∧
          Fits depth entry.fields (front ++ back)) ∧
      ∀ record, (entry.reader (depth + 1)).run octets = .ok record → ∃ bytes : Bytes,
        Base64.Denotes content.toList bytes.octets ∧ entry.Has record (.always key Bytes) bytes ∧
        ∃ members, entry.write record = .object members ∧
          (key, .string (String.ofList (Base64.encode bytes.octets))) ∈ members) ∧
    (Field.always key (List Bytes) ∈ entry.fields → ∀ before item after content,
      Sequence (before ++ item :: after) text → Codec.Quoted content item →
      ((∃ record, (entry.reader (depth + 2)).run octets = .ok record) ↔
        (∃ read, Base64.Denotes content.toList read) ∧
          (∀ other ∈ before ++ after, ∃ bytes, (Codec.read depth : Reader Bytes).run other = .ok bytes) ∧
          Distinct entry.keys (front ++ (key, text) :: back) ∧ Fits (depth + 1) entry.fields (front ++ back)) ∧
      ∀ record, (entry.reader (depth + 2)).run octets = .ok record → ∃ (all : List Bytes) (bytes : Bytes),
        all[before.length]? = some bytes ∧ Base64.Denotes content.toList bytes.octets ∧
        entry.Has record (.always key (List Bytes)) all ∧
        ∃ members, entry.write record = .object members ∧
          (key, .array (all.map fun bytes => .string (String.ofList (Base64.encode bytes.octets)))) ∈ members) := by
  refine ⟨fun _ => ⟨rfl, Nat.le_refl _⟩, fun _ _ _ first second => first.body.trans second.body.symm,
    fun taken content quoted => ⟨?_, fun record run => ?_⟩,
    fun taken before item after content sequence quoted => ⟨?_, fun record run => ?_⟩⟩
  · rw [run_succeeds_middle listed taken given]
    exact and_congr_left fun _ => Codec.bytes_succeed_iff quoted
  · obtain ⟨bytes, read, has⟩ := has_of_run listed given run taken (List.mem_append_right _ List.mem_cons_self)
    exact ⟨bytes, (Codec.run_bytes_iff quoted).mp read, has, has.written rfl⟩
  · have items : Codec.Recognising Bytes := inferInstance
    have members := @run_succeeds_middle _ (depth + 1) _ listed _ _ _ _ taken given
    rw [← @Codec.bytes_succeed_iff depth _ _ quoted]
    exact members.trans ((and_congr_left fun _ => Codec.list_succeeds_middle items sequence).trans and_assoc)
  · obtain ⟨all, read, has⟩ := has_of_run listed given run taken (List.mem_append_right _ List.mem_cons_self)
    obtain ⟨bytes, place, here⟩ := forall₂_middle ((Codec.run_list_iff inferInstance sequence).mp read)
    exact ⟨all, bytes, place, (Codec.run_bytes_iff quoted).mp here, has, has.written rfl⟩

/-- A text that lacks its padding, one whose last symbol has bits to spare that are not zero,
and a list of texts. -/
theorem octets_by_text_logicsig :
    let entry := Entry.of TransactionSignatureLogicsig
    let octets := fun key value => Json.printed (.object [(key, value)])
    entry ∈ entries ∧ Field.always "logic" Bytes ∈ entry.fields ∧ Field.always "args" (List Bytes) ∈ entry.fields ∧
      (∃ record, entry.decode (octets "logic" (.string "AQI")) = .ok record ∧
        entry.Has record (.always "logic" Bytes) ⟨[1, 2]⟩) ∧
      (¬∃ record, entry.decode (octets "logic" (.string "AQJ")) = .ok record) ∧
      ∃ record, entry.decode (octets "args" (.array [.string "AQI=", .string "AQ="])) = .ok record := by
  intro entry octets
  have listed : entry ∈ entries := List.mem_of_getElem? (i := 18) rfl
  have given (key : String) (value : Json) (exact : value.floatless = true) :
      Given entry.keys ([] ++ (key, Json.printed value) :: []) (octets key value) := by
    have sound : ∀ member ∈ [(key, value)], Text (Json.printed member.2) :=
      fun member among => text_printed member.2 (List.mem_singleton.mp among ▸ exact)
    exact .object (object_printed sound)
  have logic : Field.always "logic" Bytes ∈ entry.fields := .tail _ (.head _)
  have args : Field.always "args" (List Bytes) ∈ entry.fields := .head _
  have fits (depth : Nat) : Fits depth entry.fields ([] ++ []) := fun _ _ _ => nofun
  have denotes : Base64.Denotes "AQI".toList [1, 2] := ⟨by decide +kernel, by decide +kernel⟩
  refine ⟨listed, logic, args, ?_, ?_, ?_⟩
  · obtain ⟨succeeds, has⟩ := (octets_by_text listed 126 (given "logic" (.string "AQI") rfl)).2.2.1 logic "AQI"
      (Codec.quoted_printed _)
    obtain ⟨record, run⟩ := succeeds.mpr ⟨⟨_, denotes⟩, by decide, fits 126⟩
    obtain ⟨bytes, read, holds, _⟩ := has record run
    have same : bytes.octets = [1, 2] :=
      Except.ok.inj ((Base64.decode_text_iff.mpr read).symm.trans (Base64.decode_text_iff.mpr denotes))
    cases bytes with
    | mk read =>
      cases same
      exact ⟨record, run, holds⟩
  · intro run
    obtain ⟨succeeds, _⟩ := (octets_by_text listed 126 (given "logic" (.string "AQJ") rfl)).2.2.1 logic "AQJ"
      (Codec.quoted_printed _)
    obtain ⟨⟨read, spare⟩, _⟩ := succeeds.mp run
    have refused : (Base64.decode (Utf8.encode "AQJ".toList)).toOption = none := by decide +kernel
    rw [Base64.decode_text_iff.mpr spare] at refused
    cases refused
  · have sound : ∀ item ∈ [Json.string "AQI=", .string "AQ="], Text (Json.printed item) := by
      simp only [List.forall_mem_cons, List.not_mem_nil, false_imp_iff, implies_true, and_true]
      exact ⟨text_printed _ rfl, text_printed _ rfl⟩
    have sequence : Sequence ([] ++ Json.printed (.string "AQI=") :: [Json.printed (.string "AQ=")])
        (Json.printed (.array [.string "AQI=", .string "AQ="])) := sequence_printed sound
    obtain ⟨succeeds, _⟩ := (octets_by_text listed 125 (given "args" (.array [.string "AQI=", .string "AQ="]) rfl)).2.2.2
      args [] _ _ "AQI=" sequence (Codec.quoted_printed _)
    exact succeeds.mpr ⟨⟨[1, 2], by decide +kernel, by decide +kernel⟩,
      List.forall_mem_singleton.mpr ⟨⟨[1]⟩, rfl⟩, by decide, fits 126⟩

end Catalogue
end LedgerClient

import LedgerClient.Proofs.Catalogue
import LedgerClient.Proofs.Preflight
import LedgerClient.Proofs.ReadValues
import LedgerClient.Proofs.Sending
import LedgerClient.Proofs.TolerantDecoding

/-! Records of the library survive being written as JSON and read again. So the node is
asked about exactly the dry run that was meant, and what was read once reads the same when
it is written and read again. -/

namespace LedgerClient

/-- The fields cut nothing off a body: it goes out in chunks, or no length is declared that
it exceeds. -/
def Headers.Spares (headers : Headers) (octets : List UInt8) : Prop :=
  headers.has .transferEncoding = true ∨ ∀ length, headers.declaredLength? = some length → octets.length ≤ length

private theorem Headers.Spares.framed {headers : Headers} {octets : List UInt8} (spares : headers.Spares octets) :
    headers.framed octets = octets := by
  rcases spares with chunked | enough
  · rw [Headers.framed, if_pos chunked]
  · exact Headers.framed_eq enough

namespace Catalogue
open Json.Reader

namespace Entry
variable (entry : Entry)

/-- What a record is written to. -/
def write (record : entry.Record) : Json :=
  letI := entry.blank
  letI := entry.model
  Codec.write record

def encode (record : entry.Record) : List UInt8 :=
  letI := entry.blank
  letI := entry.model
  Utf8.encode (LedgerClient.encode record).toList

/-- No raw value in the record holds a float, no optional one is a null that is there, and
the record nests no deeper than readers go. -/
structure Plain (record : entry.Record) : Prop where
  floatless : (entry.write record).floatless = true
  settled : (entry.toRow record).All Field.Settled
  nests : (entry.write record).nesting ≤ depthLimit

end Entry

private theorem encode_eq (entry : Entry) (record : entry.Record) : entry.encode record =
    (entry.write record).printed :=
  congrArg Utf8.encode String.toList_ofList

theorem decode_of_plain {entry : Entry} (listed : entry ∈ entries) {record : entry.Record}
    (plain : entry.Plain record) : entry.decode (entry.encode record) = .ok record := by
  let := entry.blank
  let := entry.model
  have reads := reads_written Field.Settled (keys_nodup entry listed)
    (faithful_of_mem entry listed).each plain.settled plain.floatless plain.nests
  rw [encode_eq]
  exact run_of_reads reads

private theorem noNull_found (depth : Nat) : Field.NoNull (Field.Found depth) where
  always := by
    rintro key value (rfl | yields)
    · exact nofun
    · exact Codec.optional_not_null yields
  whenSome := by
    rintro key value (rfl | yields)
    · exact nofun
    · exact Codec.optional_not_null yields

/-- A record that was read is plain if it holds no float. -/
theorem plain_of_decode {entry : Entry} (listed : entry ∈ entries) {octets : List UInt8} {record : entry.Record}
    (read : entry.decode octets = .ok record) (floatless : (entry.write record).floatless = true) :
    entry.Plain record := by
  let := entry.blank
  let := entry.model
  obtain ⟨blank, _, done⟩ := reads_of_run ((Codec.local_model (local_of_mem entry listed)).reads depthLimit)
    read [] nofun
  have yields : Yields (Codec.read depthLimit) record := ⟨_, _, done⟩
  obtain ⟨depth, _, found⟩ := found_record yields
  refine ⟨floatless, ?_, (Codec.bounded_model (bounded_of_mem entry listed)).nests yields⟩
  exact Row.All.imp (settled_of_mem (noNull_found depth) entry listed).each found

private theorem listed_dryrun : Entry.of DryrunRequest ∈ entries := List.mem_of_getElem? (i := 45) rfl

/-- Every plain record is read back from what is written of it. The body of a dry run is read
as the request that was meant, also when it has been sent, unless the headers cut it off. And a text
that was read as a record without floats is read as what the record is written to. -/
theorem written_reads_back :
    (∀ entry ∈ entries, ∀ record, entry.Plain record → entry.decode (entry.encode record) = .ok record) ∧
    (∀ dryrun : DryrunRequest, (Entry.of DryrunRequest).Plain dryrun → ∀ steps, ∃ octets,
      ((Node.tealDryrun dryrun).run steps).body = some (.json octets) ∧ decode DryrunRequest octets = .ok dryrun ∧
      ∀ (client : Client) (sent : Request), client.Sends ((Node.tealDryrun dryrun).run steps).endpoint
          ((Node.tealDryrun dryrun).run steps).options sent →
        sent.headers.Spares octets → decode DryrunRequest sent.body = .ok dryrun) ∧
    ∀ entry ∈ entries, ∀ octets record, entry.decode octets = .ok record → (entry.write record).floatless = true →
      entry.decode (entry.encode record) = entry.decode octets := by
  have back : ∀ entry ∈ entries, ∀ record, entry.Plain record → entry.decode (entry.encode record) = .ok record :=
    fun _ listed _ plain => decode_of_plain listed plain
  refine ⟨back, fun dryrun plain steps => ?_, fun entry listed octets record read floatless => ?_⟩
  · have body : ((Node.tealDryrun dryrun).run steps).body = some (.json ((Entry.of DryrunRequest).encode dryrun)) :=
      (Call.run_keeps _ steps).2.2
    have read := back _ listed_dryrun dryrun plain
    generalize (Entry.of DryrunRequest).encode dryrun = octets at body read
    refine ⟨octets, body, read, fun client sent sends spares => ?_⟩
    obtain ⟨url, _, made⟩ := sends.made
    obtain ⟨fields, found, _, same, rfl⟩ := Client.request_eq_ok_iff.mp made
    cases (Except.ok.inj same).symm.trans body
    have whole := (Headers.framed_coded _ octets).symm.trans spares.framed
    exact (congrArg (decode DryrunRequest) whole).trans read
  · rw [read]
    exact decode_of_plain listed (plain_of_decode listed read floatless)

/-- A dry run with texts to be escaped, the greatest number and a transaction of any shape. -/
def fullDryrun : DryrunRequest :=
  { accounts := [], apps := [], latestTimestamp := none, protocolVersion := some "\"ß\""
    round := some 0xFFFFFFFFFFFFFFFF
    sources := [⟨1, "a\\", "", 2⟩]
    txns := [⟨.object [("amt", .integer ⟨-1, by decide⟩), ("note", .array [.null, .string "\x7f\n"])], rfl⟩] }

private theorem plain_fullDryrun : (Entry.of DryrunRequest).Plain fullDryrun :=
  ⟨by decide +kernel, ⟨nofun, nofun, fun _ => rfl, nofun, nofun, nofun, nofun, trivial⟩, by decide +kernel⟩

/-- An answer that would be written in another order. -/
def disorderedAnswer : List UInt8 :=
  Utf8.encode "\x7b\"zz\":[],\"message\":\"no\",\"data\":\x7b\"b\":1,\"a\":2\x7d\x7d".toList

theorem written_reads_back_fullDryrun :
    (Entry.of DryrunRequest).decode ((Entry.of DryrunRequest).encode fullDryrun) = .ok fullDryrun ∧
    (∃ request, Client.underPath.Sends (Node.tealDryrun fullDryrun).endpoint (Node.tealDryrun fullDryrun).options request ∧
      decode DryrunRequest request.body = .ok fullDryrun) ∧
    ∃ record, (Entry.of ErrorResponse).decode disorderedAnswer = .ok record ∧
      (Entry.of ErrorResponse).encode record ≠ disorderedAnswer ∧
      (Entry.of ErrorResponse).decode ((Entry.of ErrorResponse).encode record) = .ok record := by
  obtain ⟨back, sends, again⟩ := written_reads_back
  refine ⟨back _ listed_dryrun fullDryrun plain_fullDryrun, ?_, ?_⟩
  · obtain ⟨octets, _, _, whole⟩ := sends fullDryrun plain_fullDryrun []
    have sent : ∃ request, Client.underPath.Sends (Node.tealDryrun fullDryrun).endpoint
        (Node.tealDryrun fullDryrun).options request ∧ request.headers.declaredLength? = none :=
      ⟨_, Client.sends_of_made rfl rfl (.inl rfl) (by decide +kernel), by decide +kernel⟩
    obtain ⟨request, sent, unframed⟩ := sent
    refine ⟨request, sent, whole Client.underPath request sent (.inr fun length declared => ?_)⟩
    cases unframed.symm.trans declared
  · let record : ErrorResponse :=
      ⟨some ⟨.object [("a", .integer ⟨2, by decide⟩), ("b", .integer ⟨1, by decide⟩)], rfl⟩, "no"⟩
    have found : (decode ErrorResponse disorderedAnswer).toOption = some record := by decide +kernel
    have read : decode ErrorResponse disorderedAnswer = .ok record := by
      generalize decode ErrorResponse disorderedAnswer = outcome at found
      cases outcome with
      | error fault => cases found
      | ok other => exact congrArg Except.ok (Option.some.inj found)
    have listed : Entry.of ErrorResponse ∈ entries := List.mem_of_getElem? (i := 31) rfl
    have same := again _ listed disorderedAnswer record read (by decide +kernel)
    exact ⟨record, read, by decide +kernel, same.trans read⟩

/-- A length that the caller declares cuts the dry run off. -/
theorem declared_length_cuts_dryrun :
    let call := (Node.tealDryrun default).header "content-length" "1"
    (Entry.of DryrunRequest).Plain (default : DryrunRequest) ∧
      ∃ request, Client.underPath.Sends call.endpoint call.options request ∧ request.body = [123] ∧
        ∀ record, decode DryrunRequest request.body ≠ .ok record := by
  intro call
  have plain : (Entry.of DryrunRequest).Plain (default : DryrunRequest) :=
    ⟨by decide +kernel, ⟨nofun, nofun, fun _ => rfl, fun _ => rfl, fun _ => rfl, nofun, nofun, trivial⟩,
      by decide +kernel⟩
  have sent : ∃ request, Client.underPath.Sends call.endpoint call.options request ∧ request.body = [123] :=
    ⟨_, Client.sends_of_made rfl rfl (.inl rfl) (by decide +kernel), by decide +kernel⟩
  obtain ⟨request, sent, cut⟩ := sent
  refine ⟨plain, request, sent, cut, fun record read => ?_⟩
  rw [cut] at read
  have refused : (decode DryrunRequest [123]).toOption = none := by decide +kernel
  rw [read] at refused
  cases refused

end Catalogue
end LedgerClient

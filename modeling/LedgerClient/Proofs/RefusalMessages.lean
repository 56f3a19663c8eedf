import LedgerClient.Proofs.RecordRecognition
import LedgerClient.Proofs.Refusals
import LedgerClient.Proofs.TolerantDecoding

/-! What the error of a refused call says. The server has the word if the body is an object
with a message. From any other body, but for a list of two items that is taken for such an
object, the error has the text, or the phrase of the status where there is none. -/

namespace LedgerClient
open Json Json.Reader Json.Grammar Catalogue

namespace ApiError

/-- The data under its key: none if the key is missing, or the value that stands there. -/
def HoldsData (members : List (String × List UInt8)) (data : Option RawJson) : Prop :=
  Absent "data" members ∧ data = none ∨ ∃ text json, ("data", text) ∈ members ∧
    (value (depthLimit - 1)).run text = .ok json ∧ Codec.optional json = data

/-- The body is an object with one message that is not empty and at most one data, whatever
other members it has. -/
inductive Payload (message : String) (data : Option RawJson) : List UInt8 → Prop
  | object {members : List (String × List UInt8)} {text body : List UInt8} (object : Object members body)
      (distinct : Distinct ["data", "message"] members) (told : ("message", text) ∈ members)
      (quoted : Codec.Quoted message text) (filled : message ≠ "") (held : HoldsData members data) :
      Payload message data body

/-- The body is a list of two items, data and a string that is not empty. -/
inductive Pair : List UInt8 → Prop
  | list {before first second after : List UInt8} {json : Json} {message : String} (front : Blank before)
      (held : (value (depthLimit - 1)).run first = .ok json) (quoted : Codec.Quoted message second)
      (filled : message ≠ "") (back : Blank after) :
      Pair (before ++ 91 :: (first ++ 44 :: (second ++ 93 :: after)))

private theorem listed_errorResponse : Entry.of ErrorResponse ∈ entries := List.mem_of_getElem? (i := 31) rfl

private theorem decode_of_payload {message : String} {data : Option RawJson} {body : List UInt8}
    (payload : Payload message data body) : decode ErrorResponse body = .ok ⟨data, message⟩ := by
  cases payload with
  | @object members _ _ object distinct told quoted filled held =>
    let record : ErrorResponse := ⟨data, message⟩
    suffices replaces : (Model.toRow record).Replaces (depthLimit - 1) members (Model.toRow (default : ErrorResponse)) from
      decode_of_replaces listed_errorResponse object distinct replaces
    refine ⟨fun text among => ?_, fun absent => ?_, fun text among => ?_, fun absent => absurd told (absent _), trivial⟩
    · rcases held with ⟨absent, rfl⟩ | ⟨other, json, among', read, same⟩
      · exact absurd among (absent text)
      · cases distinct.unique (show "data" ∈ _ by simp) among among'
        exact Codec.run_optional_iff.mpr ⟨json, read, same⟩
    · rcases held with ⟨_, rfl⟩ | ⟨other, json, among, _, _⟩
      · rfl
      · exact absurd among (absent other)
    · cases distinct.unique (show "message" ∈ _ by simp) among told
      exact Codec.run_string_iff.mpr quoted

private theorem payload_of_object {members : List (String × List UInt8)} {body : List UInt8}
    (object : Object members body)
    (decodes : (Entry.of ErrorResponse).Decodes members) {payload : ErrorResponse}
    (read : decode ErrorResponse body = .ok payload) (told : payload.message ≠ "") :
    Payload payload.message payload.data body := by
  have distinct := distinct_of_decode listed_errorResponse object read
  obtain ⟨record, replaces⟩ := exists_replaces distinct decodes
  have again := decode_of_replaces listed_errorResponse object distinct replaces
  obtain rfl : payload = record := Except.ok.inj (read.symm.trans again)
  obtain ⟨data, no_data, message, no_message, _⟩ := replaces
  have present : ¬Absent "message" members := fun absent => told (no_message absent)
  obtain ⟨text, among⟩ := Classical.not_forall_not.mp present
  refine .object object distinct among (Codec.run_string_iff.mp (message text among)) told ?_
  by_cases absent : Absent "data" members
  · exact .inl ⟨absent, no_data absent⟩
  · obtain ⟨text, among⟩ := Classical.not_forall_not.mp absent
    obtain ⟨json, read, same⟩ := Codec.run_optional_iff.mp (data text among)
    exact .inr ⟨text, json, among, read, same⟩

private theorem recognises_fields (depth : Nat) :
    ∀ field ∈ Model.fields ErrorResponse, Recognises (field.codec.read depth) :=
  List.forall_mem_cons.mpr ⟨Codec.recognises_optional depth,
    List.forall_mem_cons.mpr ⟨Codec.recognises_string depth, nofun⟩⟩

private theorem pair_of_items {before rest left : List UInt8} {data : Option RawJson} {message : String}
    (read : enclosed (Row.items (depthLimit - 1) (Model.fields ErrorResponse) true) closeList rest =
      .done (data, message, ()) left)
    (front : Blank before) (told : message ≠ "") (back : Blank left) : Pair (before ++ 91 :: rest) := by
  obtain ⟨stop, items, closed⟩ := enclosed_eq_done.mp read
  obtain ⟨more, _, goes, first⟩ := bind_eq_done.mp items
  cases more with
  | false =>
    cases first
    exact absurd rfl told
  | true =>
    obtain ⟨_, behind, here, others⟩ := bind_eq_done.mp first
    obtain ⟨_, _, last, done⟩ := bind_eq_done.mp others
    cases done
    obtain ⟨more, _, goes', second⟩ := bind_eq_done.mp last
    cases more with
    | false =>
      cases second
      exact absurd rfl told
    | true =>
      obtain ⟨_, _, here', none⟩ := bind_eq_done.mp second
      cases none
      cases moreItems_eq_done.mp goes with
      | starts seen =>
        cases moreItems_eq_done.mp goes' with
        | continues comma seen' =>
          obtain ⟨json, found, _⟩ := Codec.optional_eq_done.mp here
          obtain ⟨text, same, reads⟩ := recognises_value _ found (ends_of_next (by simp) comma)
          obtain ⟨space₁, blank₁, rfl⟩ := exists_blank seen
          obtain ⟨space₂, blank₂, rfl⟩ := exists_blank comma
          obtain ⟨space₃, blank₃, rfl⟩ := exists_blank seen'
          obtain ⟨space₄, spelling, blank₄, spelt, same'⟩ := Codec.string_eq_done.mp here'
          obtain ⟨space₅, blank₅, rfl⟩ := exists_blank (closeList_eq_done.mp closed)
          rw [same, same']
          have pair := Pair.list front (run_of_reads ((reads.before blank₁).behind blank₂))
            (.quotes (blank₃.append blank₄) spelt blank₅) told back
          simpa only [List.append_assoc, List.cons_append] using pair

/-- Nothing else is taken for a message of the server. -/
theorem payload_or_pair {payload : ErrorResponse} {body : List UInt8} (read : decode ErrorResponse body = .ok payload)
    (told : payload.message ≠ "") : Payload payload.message payload.data body ∨ Pair body := by
  obtain ⟨after, back, whole⟩ := run_eq_ok_iff.mp read
  obtain ⟨⟨data, message, _⟩, _, row, done⟩ := bind_eq_done.mp whole
  cases done
  have fits : LocalFields (Model.fields ErrorResponse) := local_of_mem _ listed_errorResponse
  rcases Row.taken_of_read fits (keys_nodup _ listed_errorResponse) (recognises_fields (depthLimit - 1)) row with
    ⟨before, rest, front, rfl, items⟩ | ⟨members, before, inside, front, sound, rfl, decodes⟩
  · exact .inr (pair_of_items items front told back)
  · exact .inl (payload_of_object (.braces front sound back) decodes read told)

private theorem ofBody_of_payload (status : Status) {message : String} {data : Option RawJson} {body : List UInt8}
    (payload : Payload message data body) : ofBody status body = ⟨status, message, data⟩ := by
  have filled : message ≠ "" := by
    cases payload with
    | object _ _ _ _ filled => exact filled
  rw [ofBody, decode_of_payload payload]
  exact if_neg filled

private theorem ofBody_of_others (status : Status) {body : List UInt8}
    (untold : ∀ message data, ¬Payload message data body)
    (unpaired : ¬Pair body) : ofBody status body = ofText status body := by
  rw [ofBody]
  split
  next payload read =>
    split
    next => rfl
    next told => exact ((payload_or_pair read told).elim (untold _ _) unpaired).elim
  next => rfl

end ApiError

namespace Client
open ApiError

/-- The error of a refused call has the message and the data of a body that tells them. From
other bodies it has the text without the blanks around it, or what the status is called. -/
theorem message_of_refusal {client : Client} {endpoint : Endpoint α} {options : Options} {reply : Reply}
    {exchange : Exchange α} (outcome : client.Outcome endpoint options (some reply) exchange) {request : Request}
    (sent : exchange.request = some request) {status : Status} {body : List UInt8}
    (received : reply.received? = some (status, body, .whole))
    (refused : ¬(200 ≤ status.code ∧ status.code ≤ 299)) : ∃ error : ApiError,
      exchange.result = .error (.api error) ∧ error.status = status ∧
      (∀ message data, Payload message data body → error.message = message ∧ error.data = data) ∧
      ((∀ message data, ¬Payload message data body) → ¬Pair body → error.data = none ∧
        error.message = if Text.trim (Utf8.decodeLossy body) = [] then status.phrase?.getD "unknown status"
          else String.ofList (Text.trim (Utf8.decodeLossy body))) := by
  rw [← Status.isSuccess_iff] at refused
  rcases outcome.result_of_sent sent with resulted | ⟨_, endless⟩
  · rw [receive_of_whole endpoint received, settle_of_failure endpoint (eq_false_of_ne_true refused)] at resulted
    refine ⟨_, resulted, status_ofBody status body, fun message data payload => ?_, fun untold unpaired => ?_⟩
    · rw [ofBody_of_payload status payload]
      exact ⟨rfl, rfl⟩
    · rw [ofBody_of_others status untold unpaired]
      exact ⟨rfl, rfl⟩
  · cases endless.symm.trans (endless_of_whole received)

/-- A message among other members, and no body at all. -/
theorem message_of_refusal_boom :
    let body := Json.printed (.object [("x", .array []), ("message", .string "boom"), ("data", .null)])
    let exchange := fun body => Node.status.execute underPath (some (.answer ⟨500⟩ body .whole))
    ¬(200 ≤ 500 ∧ 500 ≤ 299) ∧ Payload "boom" none body ∧
      (∃ error : ApiError, (exchange body).result = .error (.api error) ∧ error.message = "boom" ∧ error.data = none) ∧
      ∃ error : ApiError, (exchange []).result = .error (.api error) ∧ error.message = "Internal Server Error" ∧
        error.data = none := by
  intro body exchange
  have outcome (body : List UInt8) : underPath.Outcome Node.status.endpoint Node.status.options
      (some (.answer ⟨500⟩ body .whole)) (exchange body) := .plain
  have sent (body : List UInt8) : ∃ request, (exchange body).request = some request := by
    obtain ⟨request, _, came⟩ := execute_status (.answer ⟨500⟩ body .whole)
    exact ⟨request, congrArg Exchange.request came⟩
  have payload : Payload "boom" none body := by
    have quoted : Codec.Quoted "boom" (Json.printed (.string "boom")) := by
      rw [printed_string]
      exact .quotes (show Blank [] from nofun) (spells_escaped _) nofun
    refine .object (object_printed fun member among => text_printed member.2 ?_) (by decide)
      (.tail _ (.head _)) quoted (by decide) (.inr ⟨_, .null, .tail _ (.tail _ (.head _)), rfl, rfl⟩)
    revert member
    decide
  refine ⟨by decide, payload, ?_, ?_⟩
  · obtain ⟨request, sent⟩ := sent body
    obtain ⟨error, failed, _, told, _⟩ := message_of_refusal (outcome body) sent rfl (by decide)
    obtain ⟨message, data⟩ := told "boom" none payload
    exact ⟨error, failed, message, data⟩
  · obtain ⟨request, sent⟩ := sent []
    obtain ⟨error, failed, _, _, others⟩ := message_of_refusal (outcome []) sent rfl (by decide)
    have untold (message : String) (data : Option RawJson) : ¬Payload message data [] := by
      generalize empty : ([] : List UInt8) = body
      rintro ⟨object, -, -, -, -, -⟩
      cases object with
      | braces => simp at empty
    have unpaired : ¬Pair [] := by
      generalize empty : ([] : List UInt8) = body
      rintro ⟨⟩
      simp at empty
    obtain ⟨data, message⟩ := others untold unpaired
    exact ⟨error, failed, message, data⟩

/-- Strings that are passed over need not be texts. A body that is not UTF-8 for such a
string alone is not shown to the caller, who gets the message in it. -/
theorem unsound_strings_are_passed :
    let body := Utf8.encode "\x7b\"x\":\"".toList ++ 0xFF :: Utf8.encode "\",\"message\":\"boom\"\x7d".toList
    let exchange := Node.status.execute underPath (some (.answer ⟨500⟩ body .whole))
    Utf8.decode? body = none ∧ ∃ error : ApiError, exchange.result = .error (.api error) ∧
      error.message = "boom" ∧ error.message ≠ String.ofList (Text.trim (Utf8.decodeLossy body)) := by
  intro body exchange
  obtain ⟨_, _, came⟩ := execute_status (.answer ⟨500⟩ body .whole)
  refine ⟨by decide +kernel, ApiError.ofBody ⟨500⟩ body, congrArg Exchange.result came, ?_, ?_⟩
  · decide +kernel
  · decide +kernel

end Client
end LedgerClient

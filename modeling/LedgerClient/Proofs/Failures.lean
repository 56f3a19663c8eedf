import LedgerClient.Proofs.Answers

/-! What the kind of an error tells. It is meant to tell whether an answer has arrived,
and does unless the body of the answer breaks off on its way. That counts as a fault of
decoding, be it for lack of time or not. -/

namespace LedgerClient

private theorem HttpFault.kind_eq_decode_iff {fault : HttpFault} :
    (ClientError.http fault).kind = .decode ↔ fault.isDecode = true := by
  cases fault <;> decide

def Reply.delivery? (reply : Reply) : Option Delivery := reply.received?.map fun answer => answer.2.2

private theorem Reply.delivery?_of_endless {reply : Reply} (endless : reply.isEndless = true) :
    reply.delivery? = none ∨ reply.delivery? = some .stalled := by
  rw [isEndless] at endless
  rw [delivery?]
  cases received : reply.received? with
  | none => exact .inl rfl
  | some answer =>
    rw [received, decide_eq_true_eq] at endless
    exact .inr (congrArg some endless)

/-- How the body of an answer came in, if a request went out and an answer began. -/
def Exchange.delivery? (exchange : Exchange α) (server : Option Reply) : Option Delivery :=
  match exchange.request with
  | some _ => server.bind Reply.delivery?
  | none => none

namespace Client

private theorem kind_of_settle {endpoint : Endpoint α} {status : Status} {body : List UInt8} {error : ClientError}
    (failed : (settle endpoint status body).2 = .error error) :
    error.kind = .decode ∧ error.isTimeout = false ∧ error.isCancelled = false := by
  rcases failure_of_settle failed with ⟨_, _, rfl⟩ | rfl
  · exact ⟨rfl, rfl, rfl⟩
  · exact ⟨rfl, rfl, rfl⟩

/-- A reply that makes a call fail is a fault of decoding as soon as the answer begins, and
lack of time just when the reply has no end. -/
theorem kind_of_receive {endpoint : Endpoint α} {reply : Reply} {error : ClientError}
    (failed : (receive endpoint reply).2 = .error error) :
    (error.kind = .decode ↔ reply.delivery? ≠ none) ∧ (error.isTimeout = true ↔ reply.isEndless = true) ∧
      error.isCancelled = false := by
  rw [Reply.delivery?]
  cases received : reply.received? with
  | none =>
    obtain ⟨fault, lost, plain, timed⟩ := receive_of_none endpoint received
    cases failed.symm.trans lost
    rw [HttpFault.kind_eq_decode_iff, plain]
    exact ⟨by decide, timed, rfl⟩
  | some answer =>
    obtain ⟨status, body, delivery⟩ := answer
    by_cases whole : delivery = .whole
    · subst whole
      rw [receive_of_whole endpoint received] at failed
      obtain ⟨kind, timely, waited⟩ := kind_of_settle failed
      rw [kind, timely, waited, endless_of_whole received]
      exact ⟨iff_of_true rfl nofun, Iff.rfl, rfl⟩
    · obtain ⟨fault, lost, decoded, timed⟩ := receive_of_broken endpoint received whole
      cases failed.symm.trans lost
      rw [HttpFault.kind_eq_decode_iff, decoded]
      exact ⟨iff_of_true rfl nofun, timed, rfl⟩

/-- Failures that count as faults of decoding with no whole answer there to decode. -/
inductive Misread (endpoint : Endpoint α) (error : ClientError) : Option Delivery → Prop where
  | cut : Misread endpoint error (some .cut)
  | stalled (waited : error.isCancelled = false) : Misread endpoint error (some .stalled)
  | unsent (own : endpoint.query = .error error ∨ endpoint.body = .error error) (kind : error.kind = .decode) :
      Misread endpoint error none

private theorem Misread.ne_whole {endpoint : Endpoint α} {error : ClientError} {delivery : Option Delivery}
    (misread : Misread endpoint error delivery) : delivery ≠ some .whole := by
  cases misread <;> exact nofun

private theorem misread_none_iff {endpoint : Endpoint α} {error : ClientError} : Misread endpoint error none ↔
    (endpoint.query = .error error ∨ endpoint.body = .error error) ∧ error.kind = .decode := by
  constructor
  · rintro (_ | _ | ⟨own, kind⟩)
    exact ⟨own, kind⟩
  · rintro ⟨own, kind⟩
    exact .unsent own kind

private theorem misread_stalled_iff {endpoint : Endpoint α} {error : ClientError} :
    Misread endpoint error (some .stalled) ↔ error.isCancelled = false := by
  constructor
  · rintro (_ | waited)
    exact waited
  · exact .stalled

private theorem Failure.kind_eq_decode_iff {endpoint : Endpoint α} {error : ClientError} {server : Option Reply}
    {exchange : Exchange α} (failure : Failure endpoint error server exchange.request) :
    error.kind = .decode ↔
      exchange.delivery? server = some .whole ∨ Misread endpoint error (exchange.delivery? server) := by
  obtain ⟨request, log, result⟩ := exchange
  dsimp only at failure
  cases failure with
  | unsent cause =>
    rw [Exchange.delivery?, misread_none_iff, or_iff_right nofun]
    constructor
    · -- Whatever else stops a call on its way counts as transport, so its query or body did.
      intro kind
      have own := cause.resolve_left fun transport => nomatch kind.symm.trans transport
      exact ⟨own, kind⟩
    · exact And.right
  | cancelled endless same =>
    subst same
    rw [Exchange.delivery?, Option.bind_some]
    rcases Reply.delivery?_of_endless endless with none | stalled
    · rw [none, misread_none_iff, or_iff_right nofun]
      exact iff_of_false nofun fun ⟨_, kind⟩ => nomatch kind
    · rw [stalled, misread_stalled_iff, or_iff_right nofun]
      exact iff_of_false nofun nofun
  | @received request reply failed =>
    obtain ⟨kind, _, waited⟩ := kind_of_receive failed
    rw [Exchange.delivery?, Option.bind_some]
    cases delivered : reply.delivery? with
    | none =>
      have transport : error.kind ≠ .decode := fun decode => kind.mp decode delivered
      rw [misread_none_iff, or_iff_right nofun]
      exact iff_of_false transport fun ⟨_, decode⟩ => transport decode
    | some delivery =>
      have decode : error.kind = .decode := kind.mpr (by rw [delivered]; exact nofun)
      refine iff_of_true decode ?_
      cases delivery with
      | whole => exact .inl rfl
      | cut => exact .inr .cut
      | stalled => exact .inr (.stalled waited)

/-- Lack of time shows as a fault of decoding where a request went out and its answer began. -/
theorem Failure.kind_of_timeout {endpoint : Endpoint α} {error : ClientError} {server : Option Reply}
    {exchange : Exchange α} (failure : Failure endpoint error server exchange.request)
    (late : error.isTimeout = true) : exchange.delivery? server ≠ some .whole ∧
      (exchange.request ≠ none → (error.kind = .decode ↔ exchange.delivery? server = some .stalled)) := by
  obtain ⟨request, log, result⟩ := exchange
  dsimp only at failure
  cases failure with
  | unsent cause => exact ⟨nofun, fun sent => absurd rfl sent⟩
  | cancelled endless same =>
    subst same
    cases late
  | received failed =>
    obtain ⟨kind, timeout, _⟩ := kind_of_receive failed
    rw [Exchange.delivery?, Option.bind_some, kind]
    rcases Reply.delivery?_of_endless (timeout.mp late) with none | stalled
    · rw [none]
      exact ⟨nofun, fun _ => iff_of_false (absurd rfl ·) nofun⟩
    · rw [stalled]
      exact ⟨nofun, fun _ => iff_of_true nofun rfl⟩

theorem execute_status (reply : Reply) : ∃ request log, Node.status.execute underPath (some reply) =
    ⟨some request, log, (receive Node.status.endpoint reply).2⟩ := by
  let url : Url := { underPath.base with path := .segments ["api", "v2", "status"] }
  have built : underPath.url Node.status.endpoint = .ok url := rfl
  have short : isTooLong url = false := by decide +kernel
  exact ⟨_, _, execute_of_short built rfl (.inl rfl) short reply⟩

/-- The kind of an error is decoding just when the answer is whole, except for failures that
are misread. With no time left or a signal there is never a whole answer. Lack of time
shows as a fault of decoding where the answer had begun, and a signal never does. -/
theorem kind_of_failure {client : Client} {endpoint : Endpoint α} {options : Options} {server : Option Reply}
    {exchange : Exchange α} (outcome : client.Outcome endpoint options server exchange) {error : ClientError}
    (failed : exchange.result = .error error) :
    (error.kind = .decode ↔
      exchange.delivery? server = some .whole ∨ Misread endpoint error (exchange.delivery? server)) ∧
    ((error.kind = .decode ↔ exchange.delivery? server = some .whole) ↔
      ¬Misread endpoint error (exchange.delivery? server)) ∧
    (error.isTimeout = true → exchange.delivery? server ≠ some .whole ∧
      (exchange.request ≠ none → (error.kind = .decode ↔ exchange.delivery? server = some .stalled))) ∧
    (error.isCancelled = true → exchange.delivery? server ≠ some .whole ∧ error.kind = .transport) := by
  have failure := outcome.failure failed
  have kind := failure.kind_eq_decode_iff
  refine ⟨kind, ?_, failure.kind_of_timeout, fun cancelled => ?_⟩
  · constructor
    · intro told misread
      exact misread.ne_whole (told.mp (kind.mpr (.inr misread)))
    · intro read
      rw [kind, or_iff_left read]
  · have transport : error.kind = .transport := by
      cases error with
      | cancelled => rfl
      | _ => cases cancelled
    refine ⟨fun whole => ?_, transport⟩
    cases transport.symm.trans (kind.mpr (.inl whole))

/-- The time for a call is up while the body of its answer is on the way. -/
theorem kind_of_failure_stalled :
    let reply := Reply.answer ⟨200⟩ [] .stalled
    let exchange := Node.status.execute underPath (some reply)
    underPath.Outcome Node.status.endpoint Node.status.options (some reply) exchange ∧
      exchange.result = .error (.http .bodyTimeout) ∧ exchange.delivery? (some reply) = some .stalled ∧
      (ClientError.http .bodyTimeout).kind = .decode := by
  intro reply exchange
  have outcome : underPath.Outcome Node.status.endpoint Node.status.options (some reply) exchange := .plain
  obtain ⟨request, log, came⟩ := execute_status reply
  have failed : exchange.result = .error (.http .bodyTimeout) := congrArg Exchange.result came
  have stalled : exchange.delivery? (some reply) = some .stalled := congrArg (Exchange.delivery? · (some reply)) came
  obtain ⟨kind, _⟩ := kind_of_failure outcome failed
  rw [stalled] at kind
  exact ⟨outcome, failed, stalled, kind.mpr (.inr (.stalled rfl))⟩

/-- Neither an answer that is cut off nor one that takes too long is whole. -/
theorem broken_answers_count_as_read :
    let exchange := fun delivery => Node.status.execute underPath (some (.answer ⟨200⟩ [] delivery))
    (∃ error, (exchange .stalled).result = .error error ∧ error.isTimeout = true ∧ error.kind ≠ .transport) ∧
      ∃ error, (exchange .cut).result = .error error ∧ error.kind = .decode ∧
        (exchange .cut).delivery? (some (.answer ⟨200⟩ [] .cut)) ≠ some .whole := by
  intro exchange
  obtain ⟨_, _, stalled⟩ := execute_status (.answer ⟨200⟩ [] .stalled)
  obtain ⟨_, _, cut⟩ := execute_status (.answer ⟨200⟩ [] .cut)
  refine ⟨⟨_, congrArg Exchange.result stalled, rfl, by decide⟩, ⟨_, congrArg Exchange.result cut, rfl, ?_⟩⟩
  have misread : Misread Node.status.endpoint (.http .bodyCut) (some .cut) := .cut
  rw [show exchange .cut = _ from cut]
  exact misread.ne_whole

end Client
end LedgerClient

import LedgerClient.Proofs.Catalogue
import LedgerClient.Proofs.Preflight

/-! What is made of an answer that has arrived as a whole. Its status decides: with a
success the body is read, and with anything else it only says what went wrong. -/

namespace LedgerClient

private theorem mapError_eq_ok_iff {computation : Except ε α} {convert : ε → ε'} {value : α} :
    computation.mapError convert = .ok value ↔ computation = .ok value := by
  cases computation with
  | ok value' =>
    constructor
    all_goals
      intro same
      cases same
      rfl
  | error fault =>
    constructor
    all_goals
      intro same
      cases same

private theorem Status.phrase?_ne_empty {status : Status} : status.phrase? ≠ some "" := by
  have filled : ∀ entry ∈ phrases, entry.2 ≠ "" := by decide
  intro empty
  obtain ⟨entry, found, same⟩ := Option.map_eq_some_iff.mp empty
  exact filled entry (List.mem_of_find?_eq_some found) same

theorem Status.isSuccess_iff {status : Status} : status.isSuccess = true ↔ 200 ≤ status.code ∧ status.code ≤ 299 := by
  rw [isSuccess, Bool.and_eq_true, decide_eq_true_eq, decide_eq_true_eq]

namespace ApiError

private theorem message_ofText (status : Status) (body : List UInt8) : (ofText status body).message ≠ "" := by
  simp only [ofText]
  split
  next blank =>
    cases phrase : status.phrase? with
    | none => decide
    | some phrase' =>
      rintro rfl
      exact Status.phrase?_ne_empty phrase
  next filled => exact fun empty => filled (by rw [← String.toList_ofList (l := Text.trim _), empty]; rfl)

/-- Whatever a server sends with a status that is no success, there is something to say. -/
theorem message_ofBody (status : Status) (body : List UInt8) : (ofBody status body).message ≠ "" := by
  rw [ofBody]
  split
  next payload _ =>
    split
    next silent => exact message_ofText status body
    next telling => exact telling
  next => exact message_ofText status body

theorem status_ofBody (status : Status) (body : List UInt8) : (ofBody status body).status = status := by
  rw [ofBody]
  split
  next => split <;> rfl
  next => rfl

end ApiError

namespace Client

/-- What may come of a call, whether there is a signal that may end it or not. -/
inductive Outcome (client : Client) (endpoint : Endpoint α) (options : Options) (server : Option Reply) :
    Exchange α → Prop where
  | plain : Outcome client endpoint options server (client.execute endpoint options server)
  | signalled (signal : Signal) :
      Outcome client endpoint options server (client.executeUntil endpoint options signal server)

/-- A signal that ends a call comes before the request, or while there is no end to the reply. -/
theorem Outcome.eq_or_cancelled {client : Client} {endpoint : Endpoint α} {options : Options} {server : Option Reply}
    {exchange : Exchange α} (outcome : client.Outcome endpoint options server exchange) :
    exchange = client.execute endpoint options server ∨ exchange.result = .error .cancelled ∧
      (exchange.request = none ∨ ∃ reply, server = some reply ∧ reply.isEndless = true) := by
  cases outcome with
  | plain => exact .inl rfl
  | signalled signal =>
    simp only [executeUntil]
    split
    next ready => exact .inr ⟨rfl, .inl rfl⟩
    next waiting =>
      split
      next first =>
        refine .inr ⟨rfl, .inr ?_⟩
        obtain ⟨_, first⟩ := first
        cases server with
        | none => cases signal <;> first | exact absurd rfl waiting | cases first
        | some reply =>
          cases signal with
          | ready => exact absurd rfl waiting
          | never => cases first
          | after duration => exact ⟨reply, rfl, (Bool.and_eq_true_iff.mp first).1⟩
      next late => exact .inl rfl

theorem endless_of_whole {reply : Reply} {status : Status} {body : List UInt8}
    (received : reply.received? = some (status, body, .whole)) : reply.isEndless = false := by
  rw [Reply.isEndless, received]
  rfl

theorem receive_of_whole (endpoint : Endpoint α) {reply : Reply} {status : Status} {body : List UInt8}
    (received : reply.received? = some (status, body, .whole)) :
    receive endpoint reply = ([(settle endpoint status body).1], (settle endpoint status body).2) := by
  simp only [receive, received]

theorem receive_of_broken (endpoint : Endpoint α) {reply : Reply} {status : Status} {body : List UInt8}
    {delivery : Delivery} (received : reply.received? = some (status, body, delivery)) (broken : delivery ≠ .whole) :
    ∃ fault, (receive endpoint reply).2 = .error (.http fault) ∧ fault.isDecode = true ∧
      (fault.isTimeout = true ↔ reply.isEndless = true) := by
  simp only [receive, Reply.isEndless, received]
  cases delivery with
  | whole => exact absurd rfl broken
  | cut => exact ⟨_, rfl, rfl, Iff.rfl⟩
  | stalled => exact ⟨_, rfl, rfl, Iff.rfl⟩

theorem receive_of_none (endpoint : Endpoint α) {reply : Reply} (received : reply.received? = none) :
    ∃ fault, (receive endpoint reply).2 = .error (.http fault) ∧ fault.isDecode = false ∧
      (fault.isTimeout = true ↔ reply.isEndless = true) := by
  simp only [receive, Reply.isEndless, received]
  cases reply with
  | answer status body delivery =>
    rw [Reply.received?] at received
    split at received <;> cases received
  | closed | silent | astray => exact ⟨_, rfl, rfl, by decide⟩

private theorem Outcome.settled {client : Client} {endpoint : Endpoint α} {options : Options} {reply : Reply}
    {exchange : Exchange α} (outcome : client.Outcome endpoint options (some reply) exchange) {request : Request}
    (sent : exchange.request = some request) {status : Status} {body : List UInt8}
    (received : reply.received? = some (status, body, .whole)) : ∃ url, client.url endpoint = .ok url ∧
      exchange.log = [opening endpoint url, (settle endpoint status body).1] ∧
      exchange.result = (settle endpoint status body).2 := by
  rcases outcome.eq_or_cancelled with rfl | ⟨_, unsent | ⟨_, same, endless⟩⟩
  · generalize client.execute endpoint options (some reply) = exchange,
      execute_course client endpoint options (some reply) = course at sent
    cases course with
    | sent built _ _ _ =>
      rw [receive_of_whole endpoint received]
      exact ⟨_, built, rfl, rfl⟩
    | _ => cases sent
  · cases unsent.symm.trans sent
  · -- No signal ends a call whose answer is whole: there is nothing to wait for.
    cases same
    cases endless.symm.trans (endless_of_whole received)

/-- Where a call fails: before anything was sent, by a signal while the reply had no end,
or for what came of the reply. -/
inductive Failure (endpoint : Endpoint α) (error : ClientError) : Option Reply → Option Request → Prop where
  | unsent {server : Option Reply}
      (cause : error.kind = .transport ∨ endpoint.query = .error error ∨ endpoint.body = .error error) :
      Failure endpoint error server none
  | cancelled {request : Request} {reply : Reply} (endless : reply.isEndless = true) (same : error = .cancelled) :
      Failure endpoint error (some reply) (some request)
  | received {request : Request} {reply : Reply} (failed : (receive endpoint reply).2 = .error error) :
      Failure endpoint error (some reply) (some request)

theorem Outcome.failure {client : Client} {endpoint : Endpoint α} {options : Options} {server : Option Reply}
    {exchange : Exchange α} (outcome : client.Outcome endpoint options server exchange) {error : ClientError}
    (failed : exchange.result = .error error) : Failure endpoint error server exchange.request := by
  rcases outcome.eq_or_cancelled with rfl | ⟨cancelled, unsent | ⟨reply, rfl, endless⟩⟩
  · cases found : client.fault? endpoint options with
    | some error' =>
      obtain ⟨unsent, failed'⟩ := execute_of_fault? found server
      cases failed.symm.trans failed'
      rw [unsent]
      exact .unsent (kind_of_fault? found)
    | none =>
      generalize client.execute endpoint options server = exchange,
        execute_course client endpoint options server = course at failed
      cases course with
      | unaddressed failed' =>
        rw [fault?_eq client endpoint options client.base, failed'] at found
        cases found
      | unmade built failed' =>
        rw [fault?_eq client endpoint options _, built, failed'] at found
        cases found
      | foreign _ _ _ =>
        cases failed
        exact .unsent (.inl rfl)
      | tooLong _ _ _ _ =>
        cases failed
        exact .unsent (.inl rfl)
      | unreachable _ _ _ _ =>
        cases failed
        exact .unsent (.inl rfl)
      | sent _ _ _ _ => exact .received failed
  · cases failed.symm.trans cancelled
    rw [unsent]
    exact .unsent (.inl rfl)
  · cases failed.symm.trans cancelled
    cases exchange.request with
    | none => exact .unsent (.inl rfl)
    | some request => exact .cancelled endless rfl

theorem settle_of_success (endpoint : Endpoint α) {status : Status} (success : status.isSuccess = true)
    (body : List UInt8) : settle endpoint status body =
      (⟨.trace, "response body: " ++ String.ofList (Utf8.decodeLossy body)⟩,
        (endpoint.decode body).mapError .json) := by
  rw [settle, if_pos success]

theorem settle_of_failure (endpoint : Endpoint α) {status : Status} (failure : status.isSuccess = false)
    (body : List UInt8) : settle endpoint status body =
      (⟨.warn, "request failed with " ++ status.text ++ ": " ++ (ApiError.ofBody status body).message⟩,
        .error (.api (ApiError.ofBody status body))) := by
  rw [settle, failure, if_neg Bool.false_ne_true]

/-- A whole answer is a failure for its body or for its status. -/
theorem failure_of_settle {endpoint : Endpoint α} {status : Status} {body : List UInt8} {error : ClientError}
    (failed : (settle endpoint status body).2 = .error error) :
    (∃ fault, endpoint.decode body = .error fault ∧ error = .json fault) ∨
      error = .api (ApiError.ofBody status body) := by
  cases success : status.isSuccess with
  | true =>
    rw [settle_of_success endpoint success] at failed
    cases read : endpoint.decode body with
    | ok value =>
      rw [read] at failed
      cases failed
    | error fault =>
      rw [read] at failed
      cases failed
      exact .inl ⟨fault, rfl, rfl⟩
  | false =>
    rw [settle_of_failure endpoint success] at failed
    cases failed
    exact .inr rfl

private theorem decode_of_receive {endpoint : Endpoint α} {reply : Reply} {fault : Json.Error}
    (failed : (receive endpoint reply).2 = .error (.json fault)) : ∃ body, endpoint.decode body = .error fault := by
  cases received : reply.received? with
  | none =>
    obtain ⟨_, lost, _⟩ := receive_of_none endpoint received
    cases failed.symm.trans lost
  | some answer =>
    obtain ⟨status, body, delivery⟩ := answer
    by_cases whole : delivery = .whole
    · subst whole
      rw [receive_of_whole endpoint received] at failed
      rcases failure_of_settle failed with ⟨fault', unread, same⟩ | refused
      · cases same
        exact ⟨body, unread⟩
      · cases refused
    · obtain ⟨_, lost, _⟩ := receive_of_broken endpoint received whole
      cases failed.symm.trans lost

/-- A call that can read any body never fails with a fault of JSON. -/
theorem Outcome.ne_json {client : Client} {endpoint : Endpoint α} {options : Options} {server : Option Reply}
    {exchange : Exchange α} (outcome : client.Outcome endpoint options server exchange)
    (asked : ∃ query, endpoint.query = .ok query) (filled : ∃ body, endpoint.body = .ok body)
    (reads : ∀ body, ∃ value, endpoint.decode body = .ok value) (fault : Json.Error) :
    exchange.result ≠ .error (.json fault) := by
  intro failed
  generalize exchange.request = request, outcome.failure failed = failure
  cases failure with
  | unsent cause =>
    rcases cause with transport | asked' | filled'
    · cases transport
    · obtain ⟨_, asked⟩ := asked
      cases asked.symm.trans asked'
    · obtain ⟨_, filled⟩ := filled
      cases filled.symm.trans filled'
  | cancelled _ same => cases same
  | received failed =>
    obtain ⟨body, unread⟩ := decode_of_receive failed
    obtain ⟨_, read⟩ := reads body
    cases read.symm.trans unread

private theorem decode_run (call : Call filters α) (steps : List (Call.Step filters)) :
    (call.run steps).decode = call.decode := by
  induction steps generalizing call with
  | nil => rfl
  | cons step steps ih =>
    rw [Call.run_cons, ih]
    cases step <;> rfl

/-- What is made of a whole answer, which is the one to the last request of the call. With
a status of success the result is what the body reads as, or the fault found in it; the
two calls whose answers are texts find none. With any other status the result is an error
that has the status and something to say. Two records are logged, one when the call begins
and one that tells which of the two it was. -/
theorem result_of_answer {client : Client} {endpoint : Endpoint α} {options : Options} {follow : Redirection}
    {server : Nat → Option Response} {reply : Reply}
    (handed : (client.wire endpoint options follow server).2 = some reply) {exchange : Exchange α}
    (outcome : client.Outcome endpoint options (some reply) exchange) {request : Request}
    (sent : exchange.request = some request) {status : Status} {body : List UInt8}
    (received : reply.received? = some (status, body, .whole)) :
    (∃ n response, (client.wire endpoint options follow server).1.length = n + 1 ∧ server n = some response ∧
      response.reply = reply) ∧
    (∀ value, exchange.result = .ok value ↔
      (200 ≤ status.code ∧ status.code ≤ 299) ∧ endpoint.decode body = .ok value) ∧
    (∃ url, client.url endpoint = .ok url ∧
      (200 ≤ status.code ∧ status.code ≤ 299 →
        (∀ fault, endpoint.decode body = .error fault → exchange.result = .error (.json fault)) ∧
        exchange.log = [⟨.debug, endpoint.method.text ++ " " ++ url.text⟩,
          ⟨.trace, "response body: " ++ String.ofList (Utf8.decodeLossy body)⟩]) ∧
      (¬(200 ≤ status.code ∧ status.code ≤ 299) → ∃ error : ApiError,
        exchange.result = .error (.api error) ∧ error.status = status ∧ error.message ≠ "" ∧
        exchange.log = [⟨.debug, endpoint.method.text ++ " " ++ url.text⟩,
          ⟨.warn, "request failed with " ++ status.text ++ ": " ++ error.message⟩])) ∧
    ∀ (text : Call [] String) (steps : List (Call.Step [])) (other : Client) (server : Option Reply)
      (exchange' : Exchange String) (fault : Json.Error), text = Node.healthCheck ∨ text = Node.metrics →
      other.Outcome (text.run steps).endpoint (text.run steps).options server exchange' →
        exchange'.result ≠ .error (.json fault) := by
  obtain ⟨url, built, logged, resulted⟩ := outcome.settled sent received
  have found : reply ≠ .astray := by
    rintro rfl
    cases received
  rw [← Status.isSuccess_iff]
  refine ⟨wire_handed handed found, fun value => ?_, ⟨url, built, fun success => ?_, fun failure => ?_⟩, ?_⟩
  · rw [resulted]
    cases success : status.isSuccess with
    | true =>
      rw [settle_of_success endpoint success, and_iff_right rfl]
      exact mapError_eq_ok_iff
    | false =>
      rw [settle_of_failure endpoint success]
      constructor
      · intro same
        cases same
      · rintro ⟨success', _⟩
        cases success'
  · rw [logged, resulted, settle_of_success endpoint success]
    refine ⟨fun fault unread => ?_, rfl⟩
    rw [unread]
    rfl
  · rw [logged, resulted, settle_of_failure endpoint (eq_false_of_ne_true failure)]
    exact ⟨_, rfl, ApiError.status_ofBody status body, ApiError.message_ofBody status body, rfl⟩
  · intro text steps other server exchange' fault plain outcome'
    refine outcome'.ne_json ⟨_, rfl⟩ ⟨_, rfl⟩ (fun body => ?_) fault
    have reads : (text.run steps).endpoint.decode = decodeText := by
      rw [Call.endpoint, decode_run]
      rcases plain with rfl | rfl <;> rfl
    rw [reads]
    exact ⟨_, rfl⟩

/-- A health check that is sent on once and then answered, well or badly. The body of the
bad answer would do as a text. -/
theorem result_of_answer_unavailable :
    let call := Node.healthCheck
    let good := Reply.answer ⟨200⟩ [111, 107] .whole
    let bad := Reply.answer ⟨503⟩ [] .whole
    let server := Redirection.sendingOn "http://localhost:4001/health"
    let wire := fun reply => underPath.wire call.endpoint call.options Redirection.resend (server reply)
    let exchange := fun reply => call.execute underPath (some reply)
    let opened : LogRecord := ⟨.debug, "GET http://localhost:4001/api/health"⟩
    (∀ reply ∈ [good, bad], (wire reply).2 = some reply ∧
      underPath.Outcome call.endpoint call.options (some reply) (exchange reply) ∧
      ∃ request, (exchange reply).request = some request) ∧
    good.received? = some (⟨200⟩, [111, 107], .whole) ∧ bad.received? = some (⟨503⟩, [], .whole) ∧
    (exchange good).result = .ok "ok" ∧ (exchange good).log = [opened, ⟨.trace, "response body: ok"⟩] ∧
    call.endpoint.decode [] = .ok "" ∧ (exchange bad).result ≠ .ok "" ∧
    (∃ error : ApiError, (exchange bad).result = .error (.api error) ∧ error.status = ⟨503⟩ ∧ error.message ≠ "" ∧
      (exchange bad).log =
        [opened, ⟨.warn, "request failed with 503 Service Unavailable: " ++ error.message⟩]) ∧
    (∀ fault, (exchange bad).result ≠ .error (.json fault)) ∧
    ∃ n response, (wire good).1.length = n + 1 ∧ server good n = some response ∧ response.reply = good := by
  intro call good bad server wire exchange opened
  let url : Url := { underPath.base with path := .segments ["api", "health"] }
  have built : call.url underPath = .ok url := rfl
  have short : isTooLong url = false := by decide +kernel
  have handed : ∀ reply ∈ [good, bad], (wire reply).2 = some reply := by decide +kernel
  have outcome : ∀ reply, underPath.Outcome call.endpoint call.options (some reply) (exchange reply) := fun _ => .plain
  have sent : ∀ reply, ∃ request, (exchange reply).request = some request := fun reply =>
    ⟨_, congrArg Exchange.request (execute_of_short built rfl (.inl rfl) short reply)⟩
  have received : good.received? = some (⟨200⟩, [111, 107], .whole) := rfl
  have received' : bad.received? = some (⟨503⟩, [], .whole) := rfl
  obtain ⟨_, sent_good⟩ := sent good
  obtain ⟨_, sent_bad⟩ := sent bad
  obtain ⟨last, read, ⟨_, built', served, _⟩, _⟩ :=
    result_of_answer (handed good (.head _)) (outcome good) sent_good received
  obtain ⟨_, unread, ⟨_, built'', _, failure⟩, texts⟩ :=
    result_of_answer (handed bad (.tail _ (.head _))) (outcome bad) sent_bad received'
  cases built.symm.trans built'
  cases built.symm.trans built''
  obtain ⟨error, failed, status, message, logged⟩ := failure (by decide)
  have begun : call.endpoint.method.text ++ " " ++ url.text = opened.text := by decide +kernel
  have told : "response body: " ++ String.ofList (Utf8.decodeLossy [111, 107]) = "response body: ok" := by
    decide +kernel
  have refused : "request failed with " ++ Status.text ⟨503⟩ ++ ": " =
    "request failed with 503 Service Unavailable: " := by decide +kernel
  rw [begun, refused] at logged
  refine ⟨fun reply inside => ⟨handed reply inside, outcome reply, sent reply⟩, received, received',
    (read "ok").mpr ⟨by decide, rfl⟩, ?_, rfl, fun same => absurd ((unread "").mp same).1.2 (by decide),
    ⟨error, failed, status, message, logged⟩,
    fun fault => texts call [] underPath (some bad) (exchange bad) fault (.inl rfl) (outcome bad), last⟩
  rw [(served (by decide)).2, begun, told]

end Client
end LedgerClient

import LedgerClient.Proofs.Failures

/-! What an error tells of an answer whose status is no success. The whole of its body is
fetched before anything is made of the status, which is lost if that breaks off. -/

namespace LedgerClient.Client

/-- What comes of an answer, and of a signal where there is no end to the answer. -/
theorem Outcome.result_of_sent {client : Client} {endpoint : Endpoint α} {options : Options} {reply : Reply}
    {exchange : Exchange α} (outcome : client.Outcome endpoint options (some reply) exchange) {request : Request}
    (sent : exchange.request = some request) : exchange.result = (receive endpoint reply).2 ∨
      exchange.result = .error .cancelled ∧ reply.isEndless = true := by
  rcases outcome.eq_or_cancelled with rfl | ⟨cancelled, unsent | ⟨_, same, endless⟩⟩
  · generalize client.execute endpoint options (some reply) = exchange,
      execute_course client endpoint options (some reply) = course at sent
    cases course with
    | sent => exact .inl rfl
    | _ => cases sent
  · cases unsent.symm.trans sent
  · cases same
    exact .inr ⟨cancelled, endless⟩

/-- A status that is no success makes a call fail whatever becomes of the body, but the
error tells the status only if the body is whole. -/
theorem status_of_refusal {client : Client} {endpoint : Endpoint α} {options : Options} {reply : Reply}
    {exchange : Exchange α} (outcome : client.Outcome endpoint options (some reply) exchange) {request : Request}
    (sent : exchange.request = some request) {status : Status} {body : List UInt8} {delivery : Delivery}
    (received : reply.received? = some (status, body, delivery))
    (refused : ¬(200 ≤ status.code ∧ status.code ≤ 299)) : ∃ error, exchange.result = .error error ∧
      error.status? = if delivery = .whole then some status else none := by
  rw [← Status.isSuccess_iff] at refused
  rcases outcome.result_of_sent sent with resulted | ⟨cancelled, endless⟩
  · by_cases whole : delivery = .whole
    · subst whole
      rw [receive_of_whole endpoint received, settle_of_failure endpoint (eq_false_of_ne_true refused)] at resulted
      exact ⟨_, resulted, congrArg some (ApiError.status_ofBody status body)⟩
    · obtain ⟨fault, lost, _⟩ := receive_of_broken endpoint received whole
      rw [if_neg whole]
      exact ⟨_, resulted.trans lost, rfl⟩
  · have broken : delivery ≠ .whole := by
      rintro rfl
      cases endless.symm.trans (endless_of_whole received)
    rw [if_neg broken]
    exact ⟨_, cancelled, rfl⟩

/-- A fault of the server told in full. -/
theorem status_of_refusal_whole :
    let reply := Reply.answer ⟨500⟩ [] .whole
    let exchange := Node.status.execute underPath (some reply)
    underPath.Outcome Node.status.endpoint Node.status.options (some reply) exchange ∧
      (∃ request, exchange.request = some request) ∧ reply.received? = some (⟨500⟩, [], .whole) ∧
      ¬(200 ≤ 500 ∧ 500 ≤ 299) ∧ ∃ error, exchange.result = .error error ∧ error.status? = some ⟨500⟩ := by
  intro reply exchange
  have outcome : underPath.Outcome Node.status.endpoint Node.status.options (some reply) exchange := .plain
  obtain ⟨request, log, came⟩ := execute_status reply
  have sent : exchange.request = some request := congrArg Exchange.request came
  have received : reply.received? = some (⟨500⟩, [], .whole) := rfl
  exact ⟨outcome, ⟨request, sent⟩, received, by decide, status_of_refusal outcome sent received (by decide)⟩

/-- The same fault is not to be told from a lost connection if its body breaks off. -/
theorem broken_refusals_lose_status :
    let exchange := fun delivery => Node.status.execute underPath (some (.answer ⟨500⟩ [] delivery))
    (∃ error, (exchange .cut).result = .error error ∧ error.status? ≠ some ⟨500⟩) ∧
      ∃ error, (exchange .stalled).result = .error error ∧ error.status? ≠ some ⟨500⟩ := by
  intro exchange
  obtain ⟨_, _, cut⟩ := execute_status (.answer ⟨500⟩ [] .cut)
  obtain ⟨_, _, stalled⟩ := execute_status (.answer ⟨500⟩ [] .stalled)
  exact ⟨⟨_, congrArg Exchange.result cut, nofun⟩, ⟨_, congrArg Exchange.result stalled, nofun⟩⟩

end LedgerClient.Client

import LedgerClient.Proofs.Failures
import LedgerClient.Proofs.PlainCalls
import LedgerClient.Proofs.Scripts

/-! Programs that make calls in a row, each of which has to succeed for the next one to be
made. What they leave is known from the calls and the replies: their requests are a prefix of
those of all the calls, and a line in front of a call is the last one if that call fails. -/

namespace LedgerClient.Demo

/-- A call of a program, with the lines in front of it and those that tell its value. At some
calls a reply without end is given up, which has lines of its own. -/
structure Stop where
  {filters : List Filter}
  {α : Type}
  heading : List String
  call : Call filters α
  lines : α → List String
  givenUp : Option (List String)

/-- The lines behind a call, or the error that ends the program. -/
def Stop.outcome (stop : Stop) (client : Client) (reply : Reply) : Except ClientError (List String) :=
  let exchange := stop.call.execute client (some reply)
  match stop.givenUp with
  | some lines => if exchange.request.isSome ∧ reply.isEndless then .ok lines else exchange.result.map stop.lines
  | none => exchange.result.map stop.lines

/-- What a row of calls leaves behind. -/
structure Journey where
  lines : List String
  sent : List (Request × Reply)
  failure : Option ClientError

/-- Calls are made up to the first one that fails. If none does, closing lines follow. -/
def journey (client : Client) (closing : List String) : List Stop → List Reply → Journey
  | [], _ => ⟨closing, [], none⟩
  | stop :: stops, replies =>
    let reply := upcoming replies
    let passed := (stop.call.execute client (some reply)).passed reply
    match stop.outcome client reply with
    | .error error => ⟨stop.heading, passed, some error⟩
    | .ok lines =>
      let rest := journey client closing stops replies.tail
      ⟨stop.heading ++ (lines ++ rest.lines), passed ++ rest.sent, rest.failure⟩

variable {client : Client} {closing : List String} {stop : Stop} {stops : List Stop} {replies : List Reply}

theorem journey_of_error {error : ClientError} (failed : stop.outcome client (upcoming replies) = .error error) :
    journey client closing (stop :: stops) replies = ⟨stop.heading,
      (stop.call.execute client (some (upcoming replies))).passed (upcoming replies), some error⟩ := by
  rw [journey]
  simp only [failed]

theorem journey_of_ok {lines : List String} (done : stop.outcome client (upcoming replies) = .ok lines) :
    journey client closing (stop :: stops) replies =
      ⟨stop.heading ++ (lines ++ (journey client closing stops replies.tail).lines),
        (stop.call.execute client (some (upcoming replies))).passed (upcoming replies) ++
          (journey client closing stops replies.tail).sent,
        (journey client closing stops replies.tail).failure⟩ := by
  rw [journey]
  simp only [done]

/-- An exchange that sent something is on record, and one that did not is not. -/
theorem passed_of_plain (client : Client) (plain : stop.call.IsPlain) (reply : Reply) :
    (stop.call.Goes client → ∃ request, (stop.call.execute client (some reply)).passed reply = [(request, reply)] ∧
      request.asked = stop.call.asked client) ∧
    (¬stop.call.Goes client → (stop.call.execute client (some reply)).passed reply = []) := by
  constructor
  · intro goes
    obtain ⟨request, sent, asked, _⟩ := Call.execute_of_goes plain goes reply
    exact ⟨request, by rw [Exchange.passed, sent]; rfl, asked⟩
  · intro stays
    obtain ⟨unsent, _⟩ := Call.execute_of_stays plain stays (some reply)
    rw [Exchange.passed, unsent]
    rfl

private theorem goes_of_ok (plain : stop.call.IsPlain) {reply : Reply} {lines : List String}
    (done : stop.outcome client reply = .ok lines) : stop.call.Goes client := by
  apply Classical.byContradiction
  intro stays
  obtain ⟨unsent, error, failed, _⟩ := Call.execute_of_stays plain stays (some reply)
  rw [Stop.outcome, unsent, failed] at done
  split at done
  · cases done
  · cases done

/-- A call without a signal never fails as one that was ended. -/
theorem isCancelled_of_execute (plain : stop.call.IsPlain) {reply : Reply} {error : ClientError}
    (failed : (stop.call.execute client (some reply)).result = .error error) : error.isCancelled = false := by
  by_cases goes : stop.call.Goes client
  · obtain ⟨_, _, _, result⟩ := Call.execute_of_goes plain goes reply
    exact (Client.kind_of_receive (result ▸ failed)).2.2
  · obtain ⟨_, _, other, waited⟩ := Call.execute_of_stays plain goes (some reply)
    cases failed.symm.trans other
    exact waited

theorem journey_of_plain (plain : stop.call.IsPlain) {lines : List String}
    (done : stop.outcome client (upcoming replies) = .ok lines) (closing : List String) (stops : List Stop) :
    ∃ request : Request, request.asked = stop.call.asked client ∧
      let rest := journey client closing stops replies.tail
      journey client closing (stop :: stops) replies = ⟨stop.heading ++ (lines ++ rest.lines),
        (request, upcoming replies) :: rest.sent, rest.failure⟩ := by
  obtain ⟨request, passed, asked⟩ := (passed_of_plain client plain (upcoming replies)).1 (goes_of_ok plain done)
  refine ⟨request, asked, ?_⟩
  rw [journey_of_ok done, passed]
  rfl

/-- A call that is never given up succeeds if it goes and the reply holds a value for it. -/
theorem outcome_isOk_iff (plain : stop.call.IsPlain) (patient : stop.givenUp = none) {reply : Reply} :
    (∃ lines, stop.outcome client reply = .ok lines) ↔
      stop.call.Goes client ∧ (stop.call.value? reply).isSome = true := by
  rw [Option.isSome_iff_exists, ← exists_and_left]
  simp only [← Call.execute_eq_ok_iff plain, Stop.outcome, patient]
  cases (stop.call.execute client (some reply)).result with
  | ok value => exact iff_of_true ⟨_, rfl⟩ ⟨_, rfl⟩
  | error error => exact iff_of_false nofun nofun

/-- How far a journey gets with its first call. -/
theorem sent_cases (client : Client) (plain : stop.call.IsPlain) (closing : List String) (stops : List Stop)
    (replies : List Reply) :
    let sent := (journey client closing (stop :: stops) replies).sent
    (¬stop.call.Goes client ∧ (∀ lines, stop.outcome client (upcoming replies) ≠ .ok lines) ∧ sent = []) ∨
    stop.call.Goes client ∧ ∃ request : Request, request.asked = stop.call.asked client ∧
      ((∀ lines, stop.outcome client (upcoming replies) ≠ .ok lines) ∧ sent = [(request, upcoming replies)] ∨
        (∃ lines, stop.outcome client (upcoming replies) = .ok lines) ∧
          sent = (request, upcoming replies) :: (journey client closing stops replies.tail).sent) := by
  intro sent
  obtain ⟨goes, stays⟩ := passed_of_plain client plain (upcoming replies)
  cases result : stop.outcome client (upcoming replies) with
  | error error =>
    have left : sent = _ := congrArg Journey.sent (journey_of_error result)
    by_cases here : stop.call.Goes client
    · obtain ⟨request, passed, asked⟩ := goes here
      exact .inr ⟨here, request, asked, .inl ⟨nofun, left.trans passed⟩⟩
    · exact .inl ⟨here, nofun, left.trans (stays here)⟩
  | ok lines =>
    obtain ⟨request, asked, left⟩ := journey_of_plain plain result closing stops
    exact .inr ⟨goes_of_ok plain result, request, asked, .inr ⟨⟨lines, rfl⟩, congrArg Journey.sent left⟩⟩

theorem sent_isPrefix (plain : ∀ stop ∈ stops, stop.call.IsPlain) (replies : List Reply) :
    (journey client closing stops replies).sent.map (·.1.asked) <+: stops.map (·.call.asked client) := by
  induction stops generalizing replies with
  | nil => exact List.prefix_rfl
  | cons stop stops ih =>
    have rest := ih (fun other present => plain other (List.mem_cons_of_mem stop present)) replies.tail
    rcases sent_cases client (plain stop List.mem_cons_self) closing stops replies with
      ⟨_, _, sent⟩ | ⟨_, request, asked, ⟨_, sent⟩ | ⟨_, sent⟩⟩
    · rw [sent]
      exact List.nil_prefix
    · rw [sent, List.map_cons, List.map_cons, asked]
      exact (List.prefix_cons_inj _).mpr List.nil_prefix
    · rw [sent, List.map_cons, List.map_cons, asked]
      exact (List.prefix_cons_inj _).mpr rest

/-- The requests meet the replies one after the other. -/
theorem replies_of_sent (plain : ∀ stop ∈ stops, stop.call.IsPlain) (replies : List Reply) :
    (journey client closing stops replies).sent.map (·.2) =
      (List.range (journey client closing stops replies).sent.length).map (replyAt replies) := by
  induction stops generalizing replies with
  | nil => rfl
  | cons stop stops ih =>
    have rest := ih (fun other present => plain other (List.mem_cons_of_mem stop present)) replies.tail
    have first : upcoming replies = replyAt replies 0 := upcoming_drop replies 0
    rcases sent_cases client (plain stop List.mem_cons_self) closing stops replies with
      ⟨_, _, sent⟩ | ⟨_, request, _, ⟨_, sent⟩ | ⟨_, sent⟩⟩
    · rw [sent]
      rfl
    · rw [sent]
      exact congrArg (fun reply => [reply]) first
    · have shifted : replyAt replies.tail = replyAt replies ∘ Nat.succ := funext (replyAt_tail replies)
      rw [sent, List.map_cons, rest, List.length_cons, List.range_succ_eq_map, List.map_cons, List.map_map, ← first,
        shifted]

theorem sent_pos (plain : stop.call.IsPlain) (closing : List String) (stops : List Stop) (replies : List Reply) :
    0 < (journey client closing (stop :: stops) replies).sent.length ↔ stop.call.Goes client := by
  rcases sent_cases client plain closing stops replies with
    ⟨stays, _, sent⟩ | ⟨goes, request, _, ⟨_, sent⟩ | ⟨_, sent⟩⟩
  · rw [sent]
    exact iff_of_false (Nat.lt_irrefl 0) stays
  · rw [sent]
    exact iff_of_true (Nat.succ_pos _) goes
  · rw [sent]
    exact iff_of_true (Nat.succ_pos _) goes

/-- A later request goes out if the first call succeeds and the calls behind it get that far. -/
theorem succ_lt_sent (plain : stop.call.IsPlain) (closing : List String) (stops : List Stop) (replies : List Reply)
    (i : Nat) : i + 1 < (journey client closing (stop :: stops) replies).sent.length ↔
      (∃ lines, stop.outcome client (upcoming replies) = .ok lines) ∧
        i < (journey client closing stops replies.tail).sent.length := by
  rcases sent_cases client plain closing stops replies with
    ⟨_, failed, sent⟩ | ⟨_, request, _, ⟨failed, sent⟩ | ⟨done, sent⟩⟩
  · rw [sent]
    exact iff_of_false (Nat.not_lt_zero _) fun ⟨⟨lines, done⟩, _⟩ => failed lines done
  · rw [sent]
    exact iff_of_false (by simp) fun ⟨⟨lines, done⟩, _⟩ => failed lines done
  · rw [sent, List.length_cons, Nat.add_lt_add_iff_right, and_iff_right done]

private theorem failure_cons (stop : Stop) (stops : List Stop) (replies : List Reply) :
    (journey client closing (stop :: stops) replies).failure = none ↔
      (∃ lines, stop.outcome client (upcoming replies) = .ok lines) ∧
        (journey client closing stops replies.tail).failure = none := by
  cases result : stop.outcome client (upcoming replies) with
  | error error =>
    rw [journey_of_error result]
    exact iff_of_false nofun fun ⟨⟨_, done⟩, _⟩ => nomatch done
  | ok lines =>
    rw [journey_of_ok result, and_iff_right ⟨lines, rfl⟩]

/-- A request goes out if the one before it did, its reply held a value, and the next call goes. -/
theorem succ_lt_sent_iff (client : Client) (closing : List String) (plain : ∀ stop ∈ stops, stop.call.IsPlain)
    (replies : List Reply) (i : Nat) {stop next : Stop} (here : stops[i]? = some stop)
    (after : stops[i + 1]? = some next) (patient : stop.givenUp = none) :
    i + 1 < (journey client closing stops replies).sent.length ↔
      i < (journey client closing stops replies).sent.length ∧
        (stop.call.value? (replyAt replies i)).isSome = true ∧ next.call.Goes client := by
  induction stops generalizing i replies with
  | nil => cases here
  | cons first stops ih =>
    have plainFirst := plain first List.mem_cons_self
    have plainRest := fun other present => plain other (List.mem_cons_of_mem first present)
    rw [succ_lt_sent plainFirst]
    cases i with
    | zero =>
      cases here
      cases stops with
      | nil => cases after
      | cons second stops =>
        cases after
        rw [sent_pos plainFirst, sent_pos (plainRest next List.mem_cons_self), outcome_isOk_iff plainFirst patient,
          and_assoc, ← upcoming_drop, List.drop_zero]
    | succ i =>
      rw [succ_lt_sent plainFirst, ih plainRest replies.tail i here after, replyAt_tail, and_assoc]

/-- The last call is made if all others succeed, and then it is all that can fail. -/
theorem failure_eq_none_iff (front : List Stop) (last : Stop)
    (plain : ∀ stop ∈ front ++ [last], stop.call.IsPlain) (replies : List Reply) :
    (journey client closing (front ++ [last]) replies).failure = none ↔
      front.length < (journey client closing (front ++ [last]) replies).sent.length ∧
        ∃ lines, last.outcome client (replyAt replies front.length) = .ok lines := by
  induction front generalizing replies with
  | nil =>
    have plainLast := plain last List.mem_cons_self
    rw [List.nil_append, failure_cons, List.length_nil, sent_pos plainLast, ← upcoming_drop, List.drop_zero]
    exact ⟨fun both => ⟨goes_of_ok plainLast both.1.choose_spec, both.1⟩, fun both => ⟨both.2, rfl⟩⟩
  | cons first front ih =>
    have plainFirst := plain first List.mem_cons_self
    have plainRest := fun other present => plain other (List.mem_cons_of_mem first present)
    rw [List.cons_append, failure_cons, List.length_cons, succ_lt_sent plainFirst, ih plainRest replies.tail,
      replyAt_tail, and_assoc]

private theorem lines_isSuffix (closing : List String) (stops : List Stop) {lines : List String}
    (done : stop.outcome client (upcoming replies) = .ok lines) :
    (lines ++ (journey client closing stops replies.tail).lines) <:+
      (journey client closing (stop :: stops) replies).lines := by
  rw [journey_of_ok done]
  exact List.suffix_append _ _

/-- When the last call succeeds its lines come last but for the closing ones. -/
theorem last_isSuffix (front : List Stop) (last : Stop) (plain : ∀ stop ∈ front, stop.call.IsPlain)
    (replies : List Reply)
    (reached : front.length < (journey client closing (front ++ [last]) replies).sent.length) {lines : List String}
    (done : last.outcome client (replyAt replies front.length) = .ok lines) :
    (lines ++ closing) <:+ (journey client closing (front ++ [last]) replies).lines := by
  induction front generalizing replies with
  | nil =>
    rw [List.length_nil, ← upcoming_drop, List.drop_zero] at done
    exact lines_isSuffix closing [] done
  | cons first front ih =>
    rw [List.cons_append, List.length_cons, succ_lt_sent (plain first List.mem_cons_self)] at reached
    obtain ⟨⟨lines', ok⟩, reached⟩ := reached
    rw [List.length_cons, ← replyAt_tail] at done
    have behind := ih (fun other present => plain other (List.mem_cons_of_mem first present)) replies.tail reached done
    exact behind.trans ((List.suffix_append lines' _).trans (lines_isSuffix closing _ ok))

/-- The closing lines come last, or else those in front of the call that failed. -/
theorem lines_of_journey (client : Client) (closing : List String) (stops : List Stop) (replies : List Reply) :
    ((journey client closing stops replies).failure = none →
      closing <:+ (journey client closing stops replies).lines) ∧
    ((journey client closing stops replies).failure ≠ none →
      ∃ stop ∈ stops, stop.heading <:+ (journey client closing stops replies).lines) := by
  induction stops generalizing replies with
  | nil => exact ⟨fun _ => List.suffix_rfl, fun failed => absurd rfl failed⟩
  | cons stop stops ih =>
    obtain ⟨complete, broken⟩ := ih replies.tail
    cases result : stop.outcome client (upcoming replies) with
    | error error =>
      rw [journey_of_error result]
      exact ⟨nofun, fun _ => ⟨stop, List.mem_cons_self, List.suffix_rfl⟩⟩
    | ok lines =>
      have behind := (List.suffix_append lines _).trans (lines_isSuffix closing stops result)
      have same : (journey client closing (stop :: stops) replies).failure =
          (journey client closing stops replies.tail).failure := by rw [journey_of_ok result]
      rw [same]
      refine ⟨fun done => (complete done).trans behind, fun failed => ?_⟩
      obtain ⟨other, present, last⟩ := broken failed
      exact ⟨other, List.mem_cons_of_mem stop present, last.trans behind⟩

def ending : Option ClientError → Except ClientError Unit
  | none => .ok ()
  | some error => .error error

/-- The program leaves what the journey leaves. -/
def Makes (script : Script Unit) (client : Client) (closing : List String) (stops : List Stop)
    (replies : List Reply) : Prop :=
  let journey := journey client closing stops replies
  Script.Runs script replies (ending journey.failure) journey.lines journey.sent

open Script

/-- A program makes its first stop and goes on with the value, if there is one. -/
theorem makes_cons (stop : Stop) (plain : stop.call.IsPlain) (patient : stop.givenUp = none) {opening : Script Unit}
    {next : stop.α → Script Unit} (opens : Runs opening replies (.ok ()) stop.heading [])
    (rest : ∀ value, (stop.call.execute client (some (upcoming replies))).result = .ok value →
      let journey := journey client closing stops replies.tail
      Runs (next value) replies.tail (ending journey.failure) (stop.lines value ++ journey.lines) journey.sent) :
    Makes (do opening; let value ← perform client stop.call; next value) client closing (stop :: stops) replies := by
  have made := Runs.perform replies client stop.call
  have outcome : stop.outcome client (upcoming replies) =
      (stop.call.execute client (some (upcoming replies))).result.map stop.lines := by
    rw [Stop.outcome, patient]
  rw [Makes]
  cases result : (stop.call.execute client (some (upcoming replies))).result with
  | error error =>
    rw [result] at made outcome
    rw [journey_of_error outcome, ← List.append_nil stop.heading]
    exact opens.bind (made.bind_error next)
  | ok value =>
    rw [result] at made outcome
    have goes := ((Call.execute_eq_ok_iff plain).mp result).1
    obtain ⟨request, passed, _⟩ := (passed_of_plain client plain (upcoming replies)).1 goes
    have behind := rest value result
    dsimp only at behind
    rw [← List.drop_one] at behind
    rw [journey_of_ok outcome, passed, ← List.drop_one]
    rw [passed] at made
    exact opens.bind (made.bind behind)

theorem run_of_opened {service : Service} {address token : Option String} {opening : Client}
    (made : opened service address token = .ok opening) (program : Client → Script Unit)
    {failure : Option ClientError} {lines : List String} {sent : List (Request × Reply)}
    (runs : Runs (program opening) replies (ending failure) lines sent) :
    let report := run (some replies) (do program (← Demo.client service address token))
    report.output = textOf lines ∧ report.sent = sent ∧ report.error = failure := by
  obtain ⟨output, sent, error⟩ := run_of_runs ((runs_client made replies).bind runs)
  refine ⟨output, sent, error.trans ?_⟩
  cases failure <;> rfl

end LedgerClient.Demo

import LedgerClient.Demo.Session
import LedgerClient.Proofs.Answers
import LedgerClient.Proofs.ClientHeaders

/-! Programs and the replies that a server gives them. What a program prints and requests,
and how it ends, depends on the replies still to come and on nothing else in its session,
so it is put together from what its steps do. -/

namespace LedgerClient

/-- The exchange as a session keeps it, if anything was sent. -/
def Exchange.passed (exchange : Exchange α) (reply : Reply) : List (Request × Reply) :=
  (exchange.request.map (·, reply)).toList

theorem Exchange.length_passed (exchange : Exchange α) (reply : Reply) : (exchange.passed reply).length ≤ 1 := by
  rw [Exchange.passed]
  cases exchange.request with
  | none => exact Nat.zero_le 1
  | some request => exact Nat.le_refl 1

namespace Demo

/-- Lines as they stand in an output. -/
def textOf (lines : List String) : String := String.join (lines.map (· ++ "\n"))

theorem textOf_cons (line : String) (lines : List String) : textOf (line :: lines) = line ++ "\n" ++ textOf lines := by
  rw [textOf, textOf, List.map_cons, String.join_cons]

theorem textOf_of_suffix {ending lines : List String} (last : ending <:+ lines) :
    ∃ front, textOf lines = front ++ textOf ending := by
  obtain ⟨front, rfl⟩ := last
  exact ⟨textOf front, by rw [textOf, textOf, textOf, List.map_append, String.join_append]⟩

/-- What the next request meets when a server has these replies left. -/
def upcoming (replies : List Reply) : Reply := replies.head?.getD .closed

/-- An answer that says nothing. -/
def emptyAnswer : Reply := .answer ⟨200⟩ (Utf8.encode "\x7b\x7d".toList) .whole

/-- The reply behind so many others. -/
def replyAt (replies : List Reply) (count : Nat) : Reply := replies.getD count .closed

theorem upcoming_drop (replies : List Reply) (count : Nat) :
    upcoming (replies.drop count) = replyAt replies count := by
  rw [upcoming, replyAt, List.head?_drop, List.getD_eq_getElem?_getD]

theorem replyAt_tail (replies : List Reply) (count : Nat) :
    replyAt replies.tail count = replyAt replies (count + 1) := by
  cases replies <;> rfl

namespace Script

/-- With the given replies to come, a program has this result, prints these lines, and
sends these requests, which the first of the replies go to. -/
def Runs (script : Script α) (replies : List Reply) (result : Except ClientError α) (lines : List String)
    (sent : List (Request × Reply)) : Prop :=
  ∀ output before log, ∃ log', script.run.run ⟨some replies, output, before, log⟩ =
    (result, ⟨some (replies.drop sent.length), output ++ lines, before ++ sent, log'⟩)

variable {replies : List Reply} {lines lines' : List String} {sent sent' : List (Request × Reply)}

private theorem run_bind (script : Script α) (next : α → Script β) (session : Session) :
    (script >>= next).run.run session = match script.run.run session with
      | (.ok value, session) => (next value).run.run session
      | (.error error, session) => (.error error, session) := by
  rw [ExceptT.run_bind, StateT.run_bind]
  rcases script.run.run session with ⟨_ | _, _⟩ <;> rfl

theorem Runs.pure (value : α) : Runs (Pure.pure value : Script α) replies (.ok value) [] [] :=
  fun output before log => ⟨log, by rw [List.append_nil, List.append_nil]; rfl⟩

theorem Runs.throw (error : ClientError) : Runs (MonadExcept.throw error : Script α) replies (.error error) [] [] :=
  fun output before log => ⟨log, by rw [List.append_nil, List.append_nil]; rfl⟩

theorem Runs.print (line : String) : Runs (print line) replies (.ok ()) [line] [] :=
  fun output before log => ⟨log, by rw [List.append_nil]; rfl⟩

/-- A step that succeeds leaves what it has not used to the steps behind it. -/
theorem Runs.bind {script : Script α} {next : α → Script β} {value : α} {result : Except ClientError β}
    (first : Runs script replies (.ok value) lines sent)
    (rest : Runs (next value) (replies.drop sent.length) result lines' sent') :
    Runs (script >>= next) replies result (lines ++ lines') (sent ++ sent') := by
  intro output before log
  obtain ⟨log', run⟩ := first output before log
  obtain ⟨log'', run'⟩ := rest (output ++ lines) (before ++ sent) log'
  refine ⟨log'', ?_⟩
  rw [run_bind, run]
  dsimp only
  rw [run', List.drop_drop, List.length_append, List.append_assoc, List.append_assoc]

/-- A step that fails ends the program. -/
theorem Runs.bind_error {script : Script α} {error : ClientError}
    (failed : Runs script replies (.error error) lines sent) (next : α → Script β) :
    Runs (script >>= next) replies (.error error) lines sent := by
  intro output before log
  obtain ⟨log', run⟩ := failed output before log
  refine ⟨log', ?_⟩
  rw [run_bind, run]

theorem Runs.print_bind {line : String} {next : Unit → Script α} {result : Except ClientError α}
    (rest : Runs (next ()) replies result lines sent) :
    Runs (Script.print line >>= next) replies result (line :: lines) sent :=
  Runs.bind (Runs.print line) rest

/-- A call that a signal may end takes the next reply if it sends its request. -/
theorem Runs.attempt (replies : List Reply) (client : Client) (call : Call filters α) (signal : Signal) :
    Runs (attempt client call signal) replies
      (.ok (call.executeUntil client signal (some (upcoming replies))).result) []
      ((call.executeUntil client signal (some (upcoming replies))).passed (upcoming replies)) := by
  intro output before log
  have server : Session.server ⟨some replies, output, before, log⟩ = some (upcoming replies) := rfl
  change ∃ log', (Except.ok (call.executeUntil client signal _).result,
    Session.record ⟨some replies, output, before, log⟩ (call.executeUntil client signal _)) = _
  rw [server]
  generalize call.executeUntil client signal (some (upcoming replies)) = exchange
  rw [Session.record, server, Exchange.passed, List.append_nil]
  cases exchange.request with
  | none => exact ⟨log ++ exchange.log, by rw [Option.map_none, Option.toList_none, List.append_nil]; rfl⟩
  | some request => exact ⟨log ++ exchange.log, by cases replies <;> rfl⟩

private theorem executeUntil_never (client : Client) (call : Call filters α) (server : Option Reply) :
    call.executeUntil client .never server = call.execute client server := by
  simp only [Call.executeUntil, Client.executeUntil, Client.Signal.isFirst, reduceCtorEq, Bool.false_eq_true, and_false,
    if_false, Call.execute]

theorem Runs.perform (replies : List Reply) (client : Client) (call : Call filters α) :
    Runs (perform client call) replies (call.execute client (some (upcoming replies))).result []
      ((call.execute client (some (upcoming replies))).passed (upcoming replies)) := by
  have made := Runs.attempt replies client call .never
  rw [executeUntil_never] at made
  rw [← List.append_nil (Exchange.passed _ _)]
  refine Runs.bind made ?_
  cases (call.execute client (some (upcoming replies))).result with
  | ok value => exact Runs.pure value
  | error error => exact Runs.throw error

end Script

open Script

theorem run_of_runs {script : Script Unit} {replies : List Reply} {result : Except ClientError Unit}
    {lines : List String} {sent : List (Request × Reply)} (runs : Runs script replies result lines sent) :
    (run (some replies) script).output = textOf lines ∧ (run (some replies) script).sent = sent ∧
      (run (some replies) script).error = faultOf result := by
  obtain ⟨log, finished⟩ := runs [] [] []
  rw [List.nil_append, List.nil_append] at finished
  rw [run, finished]
  refine ⟨rfl, rfl, ?_⟩
  cases result <;> rfl

/-- The client of a program: one for the address that it is given, or else for the local service. -/
def opened (service : Service) (address token : Option String) : Except ClientError Client :=
  match address with
  | some address => service.connect address (token.getD "")
  | none => service.connectLocally

private theorem client_eq_lift (service : Service) (address token : Option String) :
    client service address token = client.liftExcept (opened service address token) := by
  cases address <;> rfl

theorem runs_client {service : Service} {address token : Option String} {opening : Client}
    (made : opened service address token = .ok opening) (replies : List Reply) :
    Runs (client service address token) replies (.ok opening) [] [] := by
  rw [client_eq_lift, made]
  exact Runs.pure opening

theorem runs_client_of_error {service : Service} {address token : Option String} {error : ClientError}
    (failed : opened service address token = .error error) (replies : List Reply) :
    Runs (client service address token) replies (.error error) [] [] := by
  rw [client_eq_lift, failed]
  exact Runs.throw error

/-- All settings but address and token are those that clients start with. -/
theorem timeout_of_opened {service : Service} {address token : Option String} {opening : Client}
    (made : opened service address token = .ok opening) : opening.timeout = .ofSeconds 30 := by
  have connected : ∀ address token, service.connect address token = .ok opening → opening.timeout = .ofSeconds 30 := by
    intro address token made
    rw [Service.connect, ClientConfig.parse] at made
    cases read : Url.parse address with
    | error fault =>
      rw [read] at made
      cases made
    | ok url =>
      rw [read] at made
      exact (Client.ofConfig_eq_ok made).2.1
  cases address with
  | some address => exact connected _ _ made
  | none => exact connected _ _ made

end Demo
end LedgerClient

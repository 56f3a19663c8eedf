import LedgerClient.Client.Call
import LedgerClient.Client.Service

/-! Programs that make one call after the other and print lines. The server is
known by its replies, one for each request that reaches it. -/

namespace LedgerClient.Demo

structure Session where
  /-- The replies still to come; `none` is a server that cannot be reached. -/
  replies : Option (List Reply)
  output : List String
  /-- The requests so far with the replies they got. -/
  sent : List (Request × Reply)
  log : List LogRecord

/-- A program that ends early when a call fails. -/
abbrev Script := ExceptT ClientError (StateM Session)

/-- What the next request meets. A server that has no more replies hangs up. -/
def Session.server (session : Session) : Option Reply :=
  session.replies.map fun replies => replies.head?.getD .closed

def Session.record (session : Session) (exchange : Exchange α) : Session :=
  match exchange.request, session.server with
  | some request, some reply =>
    { session with
      replies := session.replies.map List.tail
      sent := session.sent ++ [(request, reply)]
      log := session.log ++ exchange.log }
  | _, _ => { session with log := session.log ++ exchange.log }

namespace Script

def print (line : String) : Script Unit :=
  modify fun session => { session with output := session.output ++ [line] }

/-- Makes a call that a signal may end, and hands its result on as a value. -/
def attempt (client : Client) (call : Call filters α) (signal : Signal) :
    Script (Except ClientError α) := do
  let session ← get
  let exchange := call.executeUntil client signal session.server
  set (session.record exchange)
  return exchange.result

def perform (client : Client) (call : Call filters α) : Script α := do
  match ← attempt client call .never with
  | .ok value => return value
  | .error error => throw error

end Script

/-- What a program leaves behind. -/
structure Report where
  output : String
  sent : List (Request × Reply)
  log : List LogRecord
  error : Option ClientError

/-- Runs a program against the replies of a server. -/
def run (replies : Option (List Reply)) (script : Script Unit) : Report :=
  let (result, session) := (script.run.run ⟨replies, [], [], []⟩ : Except ClientError Unit × Session)
  { output := String.join (session.output.map (· ++ "\n")), sent := session.sent, log := session.log
    error := match result with
      | .ok () => none
      | .error error => some error }

/-- A client for the given address, or else for the local service. -/
def client (service : Service) (address token : Option String) : Script Client :=
  match address with
  | some address => liftExcept (service.connect address (token.getD ""))
  | none => liftExcept service.connectLocally
where
  liftExcept : Except ClientError Client → Script Client
    | .ok client => return client
    | .error error => throw error

end LedgerClient.Demo

import LedgerClient.Client.Basic
import LedgerClient.Model.Status
import LedgerClient.Text.Blank

/-! What happens when a call is made: the request that goes out, the records that
are logged, and the result. -/

namespace LedgerClient

inductive LogLevel
  | trace | debug | warn
deriving DecidableEq, Repr

def LogLevel.text : LogLevel → String
  | trace => "TRACE"
  | debug => "DEBUG"
  | warn => "WARN"

structure LogRecord where
  level : LogLevel
  text : String
deriving DecidableEq, Repr

/-- The outcome of a call with its own request. There is no request if nothing was sent.
Those by which redirects are followed are told by `Client.wire`. -/
structure Exchange (α : Type) where
  request : Option Request
  log : List LogRecord
  result : Except ClientError α

/-- Something that may end a call before its answer is there. -/
inductive Signal
  | ready
  | after (duration : Duration)
  | never
deriving DecidableEq, Repr

namespace ApiError

/-- The body of the answer as a text without blanks around it, or the phrase of
the status if that is empty. -/
def ofText (status : Status) (body : List UInt8) : ApiError :=
  let text := Text.trim (Utf8.decodeLossy body)
  let message := if text = [] then status.phrase?.getD "unknown status" else String.ofList text
  { status, message, data := none }

/-- A server may say more in JSON; without a message that counts as plain text. -/
def ofBody (status : Status) (body : List UInt8) : ApiError :=
  match LedgerClient.decode ErrorResponse body with
  | .ok payload =>
    if payload.message = "" then ofText status body
    else { status, message := payload.message, data := payload.data }
  | .error _ => ofText status body

end ApiError

namespace Client

/-- What comes of an answer whose body is complete. -/
def settle (endpoint : Endpoint α) (status : Status) (body : List UInt8) :
    LogRecord × Except ClientError α :=
  if status.isSuccess then
    (⟨.trace, "response body: " ++ String.ofList (Utf8.decodeLossy body)⟩,
      (endpoint.decode body).mapError .json)
  else
    let error := ApiError.ofBody status body
    (⟨.warn, "request failed with " ++ status.text ++ ": " ++ error.message⟩, .error (.api error))

/-- What comes of a reply. -/
def receive (endpoint : Endpoint α) (reply : Reply) : List LogRecord × Except ClientError α :=
  match reply.received? with
  | some (status, body, .whole) =>
    let (record, result) := settle endpoint status body
    ([record], result)
  | some (_, _, .cut) => ([], .error (.http .bodyCut))
  | some (_, _, .stalled) => ([], .error (.http .bodyTimeout))
  | none =>
    let fault := match reply with
      | .closed => HttpFault.closed
      | .astray => .astray
      | _ => .answerTimeout
    ([], .error (.http fault))

def opening (endpoint : Endpoint α) (url : Url) : LogRecord :=
  ⟨.debug, endpoint.method.text ++ " " ++ url.text⟩

/-- The request of a call, if the HTTP library takes it to where it is addressed. -/
def prepare (client : Client) (endpoint : Endpoint α) (options : Options) (url : Url) :
    Except ClientError Request := do
  let request ← client.request endpoint options url
  if url.scheme ≠ "http" ∧ url.scheme ≠ "https" then .error (.http .badScheme)
  else if isTooLong url then .error (.http .longAddress)
  else return request

/-- Makes a call. `none` is a server that cannot be reached. -/
def execute (client : Client) (endpoint : Endpoint α) (options : Options) (server : Option Reply) :
    Exchange α :=
  match client.url endpoint with
  | .error error => ⟨none, [], .error error⟩
  | .ok url =>
    let log := [opening endpoint url]
    match client.prepare endpoint options url with
    | .error error => ⟨none, log, .error error⟩
    | .ok request =>
      match server with
      | none => ⟨none, log, .error (.http .unreachable)⟩
      | some reply =>
        let (records, result) := receive endpoint reply
        ⟨some request, log ++ records, result⟩

def cancelling (endpoint : Endpoint α) : LogRecord :=
  ⟨.debug, "request to /" ++ "/".intercalate endpoint.path ++ " cancelled"⟩

/-- Whether a signal comes before a reply, or before the time for that is up. -/
def Signal.isFirst (signal : Signal) (reply : Option Reply) (timeout : Duration) : Bool :=
  match signal, reply with
  | .ready, _ => true
  | .after duration, some reply => reply.isEndless && duration.nanoseconds < timeout.nanoseconds
  | _, _ => false

/-- Makes a call that a signal may end. A signal that is there beforehand leaves
nothing to be done; a later one finds the request sent. -/
def executeUntil (client : Client) (endpoint : Endpoint α) (options : Options) (signal : Signal)
    (server : Option Reply) : Exchange α :=
  let whole := client.execute endpoint options server
  let timeout := options.timeout.getD client.timeout
  if signal = .ready then ⟨none, [cancelling endpoint], .error .cancelled⟩
  else if whole.request.isSome ∧ Signal.isFirst signal server timeout then
    ⟨whole.request, whole.log ++ [cancelling endpoint], .error .cancelled⟩
  else whole

end Client
end LedgerClient

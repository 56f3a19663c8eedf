import LedgerClient.Http.Header
import LedgerClient.Http.Status

/-! Requests as they go out, and what a server may do about them. -/

namespace LedgerClient

inductive Method
  | get | post | put | delete
deriving DecidableEq, Repr

def Method.text : Method → String
  | get => "GET"
  | post => "POST"
  | put => "PUT"
  | delete => "DELETE"

inductive Body
  | json (octets : List UInt8)
  | binary (octets : List UInt8)
  | text (text : String)
deriving DecidableEq, Repr

namespace Body

def contentType : Body → HeaderValue
  | .json _ => ⟨"application/json", by decide⟩
  | .binary _ => ⟨"application/x-binary", by decide⟩
  | .text _ => ⟨"text/plain", by decide⟩

def octets : Body → List UInt8
  | .json octets => octets
  | .binary octets => octets
  | .text content => Utf8.encode content.toList

end Body

/-- A request. The fields for the host and for the length of the body are sent by the HTTP
library, and what stands under these two names is not told here. -/
structure Request where
  method : Method
  target : String
  headers : Headers
  body : List UInt8
deriving DecidableEq

/-- How the body of an answer comes in. -/
inductive Delivery
  | whole
  | cut
  | stalled
deriving DecidableEq, Repr

/-- What comes of a request in the end. An answer is the final one: notes that a server may
send ahead of it are passed over, and redirects have been followed. A request is led
astray by redirects that have no end, or that end at no place that can be reached. -/
inductive Reply
  | answer (status : Status) (body : List UInt8) (delivery : Delivery)
  | closed
  | silent
  | astray
deriving DecidableEq, Repr

/-- The body as received. An answer that can have none is always whole. -/
def Reply.received? : Reply → Option (Status × List UInt8 × Delivery)
  | answer status body delivery =>
    if status.isBodiless then some (status, [], .whole) else some (status, body, delivery)
  | _ => none

/-- Whether the reply keeps the client waiting for ever. -/
def Reply.isEndless (reply : Reply) : Bool :=
  match reply.received? with
  | some (_, _, delivery) => delivery = .stalled
  | none => reply = .silent

/-- What a server does with one request: its reply, and the place that the answer names if
it names one. -/
structure Response where
  reply : Reply
  location : Option String
deriving DecidableEq, Repr

/-- The place that a server sends the client on to. -/
def Response.onward? (response : Response) : Option (Status × String) :=
  match response.reply with
  | .answer status _ _ => if status.isRedirect then response.location.map (status, ·) else none
  | _ => none

end LedgerClient

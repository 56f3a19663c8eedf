import LedgerClient.Http.Message
import LedgerClient.Json.Fault
import LedgerClient.Query
import LedgerClient.Url.Host

/-! Everything that can go wrong with a call. -/

namespace LedgerClient

/-- Faults on the way to an answer. -/
inductive HttpFault
  | badUserAgent
  | badScheme
  | longAddress
  | unreachable
  | closed
  | answerTimeout
  | astray
  | bodyCut
  | bodyTimeout
deriving DecidableEq, Repr

/-- Faults found in the body of an answer count as faults of decoding. -/
def HttpFault.isDecode : HttpFault → Bool
  | bodyCut | bodyTimeout => true
  | _ => false

def HttpFault.isTimeout : HttpFault → Bool
  | answerTimeout | bodyTimeout => true
  | _ => false

/-- What a server says with a status that is no success. -/
structure ApiError where
  status : Status
  message : String
  data : Option RawJson
deriving DecidableEq

def ApiError.text (error : ApiError) : String :=
  "status " ++ toString error.status.code ++ ": " ++ error.message

inductive HeaderFault
  | name (name : String)
  | value (name : String)
deriving DecidableEq, Repr

def HeaderFault.message : HeaderFault → String
  | .name field => "bad header name " ++ Text.quoted field
  | .value field => "bad value for header " ++ Text.quoted field

inductive PathFault
  | segment (segment : String)
  | base (address : String)
deriving DecidableEq, Repr

def PathFault.message : PathFault → String
  | .segment entry => "path parameter " ++ Text.quoted entry ++ " is not a valid segment"
  | .base address => address ++ " cannot be a base URL"

inductive ClientError
  | http (fault : HttpFault)
  | api (error : ApiError)
  | json (error : Json.Error)
  | url (fault : UrlFault)
  | query (fault : QueryFault)
  | invalidHeader (fault : HeaderFault)
  | invalidPath (fault : PathFault)
  | cancelled

/-- Whether a call failed before its answer was there, or because of the answer. -/
inductive ErrorKind
  | transport
  | decode
deriving DecidableEq, Repr

namespace ClientError

def kind : ClientError → ErrorKind
  | http fault => if fault.isDecode then .decode else .transport
  | api _ | json _ => .decode
  | url _ | query _ | invalidHeader _ | invalidPath _ | cancelled => .transport

def isTimeout : ClientError → Bool
  | http fault => fault.isTimeout
  | _ => false

def isCancelled : ClientError → Bool
  | cancelled => true
  | _ => false

/-- The status of the answer, if that is what made the call fail. -/
def status? : ClientError → Option Status
  | api error => some error.status
  | _ => none

/-- The text of an error. Faults of transport have a text that is not laid down. -/
def message? : ClientError → Option String
  | http _ => none
  | api error => some ("API error: " ++ error.text)
  | json error => some ("JSON error: " ++ error.message)
  | url fault => some ("invalid URL: " ++ fault.message)
  | query fault => some ("query encoding error: " ++ fault.message)
  | invalidHeader fault => some ("invalid header: " ++ fault.message)
  | invalidPath fault => some ("invalid path: " ++ fault.message)
  | cancelled => some "request cancelled"

end ClientError
end LedgerClient

import LedgerClient.Client.Config
import LedgerClient.Client.Endpoint
import LedgerClient.Octets.Base64

/-! A client: a base address with the headers that go with every request. -/

namespace LedgerClient

structure Client where
  base : Url
  headers : Headers
  timeout : Duration

/-- A field, if name and value may stand in a message. -/
def Headers.field (name value : String) : Except ClientError (HeaderName × HeaderValue) :=
  match HeaderName.parse? name with
  | none => .error (.invalidHeader (.name name))
  | some field =>
    match HeaderValue.parse? value with
    | none => .error (.invalidHeader (.value name))
    | some text => .ok (field, text)

/-- The fields of a single request. -/
def Options.fields (options : Options) : Except ClientError Headers :=
  options.headers.mapM fun (name, value) => Headers.field name value

namespace Client

/-- What is accepted unless a client says otherwise. -/
def standardHeaders : Headers := [(.accept, ⟨"*/*", by decide⟩)]

/-- The token goes under the name that a service has for it, and a user agent
under its own; both come after the other headers and displace them. -/
def ofConfig (config : ClientConfig) (tokenHeader : HeaderName) : Except ClientError Client := do
  let headers ← config.headers.entries.foldlM
    (fun headers (name, value) => do
      let (field, text) ← Headers.field name value
      return headers.insert field text)
    standardHeaders
  let headers ←
    if config.token = "" then pure headers
    else match HeaderValue.parse? config.token with
      | some token => pure (headers.insert tokenHeader token)
      | none => throw (.invalidHeader (.value tokenHeader.text))
  let headers ← match config.userAgent with
    | none => pure headers
    | some userAgent => match HeaderValue.parse? userAgent with
      | some userAgent => pure (headers.insert .userAgent userAgent)
      | none => throw (.http .badUserAgent)
  return { base := config.address, headers, timeout := config.timeout }

/-- Entries that would not be segments of their own. -/
def isBadSegment (entry : String) : Bool := entry = "" || entry = "." || entry = ".."

def url (client : Client) (endpoint : Endpoint α) : Except ClientError Url := do
  if let some entry := endpoint.path.find? isBadSegment then
    throw (.invalidPath (.segment entry))
  match client.base.extend? endpoint.path with
  | none => throw (.invalidPath (.base client.base.text))
  | some url => return url.withQuery (← endpoint.query)

/-- User and password of the address, which a server gets as a header. -/
def credentials? (url : Url) : Option HeaderValue := do
  let authority ← url.authority?
  let undo := fun text : String => Utf8.decode? (Percent.decode (Utf8.encode text.toList))
  let user ← undo authority.user
  let password := authority.password.bind undo
  if user = [] ∧ password = none then none
  else HeaderValue.parse? ("Basic " ++ String.ofList (Base64.encode (Utf8.encode (user ++ ':' :: password.getD []))))

/-- What is requested of an address: where user and password go out as credentials they
are left out of it. -/
def requested (url : Url) : Url := if (credentials? url).isSome then url.withoutUser else url

/-- An address that is requested has no more octets than this. -/
def addressLimit : Nat := 65534

def isTooLong (url : Url) : Bool := addressLimit < (Utf8.encode (requested url).text.toList).length

/-- The request of a call whose address is known. Fields of the call displace the
credentials, the type of a body is one more value, and the headers of the client
fill in what is missing. Transfer codings are made to fit the body. -/
def request (client : Client) (endpoint : Endpoint α) (options : Options) (url : Url) :
    Except ClientError Request := do
  let own : Headers := match credentials? url with
    | some credentials => [(.authorization, credentials)]
    | none => []
  let fields := own.replace (← options.fields)
  let body ← endpoint.body
  let fields := match body with
    | some body => fields.append .contentType body.contentType
    | none => fields
  let headers := fields.fill client.headers
  let octets := (body.map Body.octets).getD []
  return { method := endpoint.method, target := String.ofList url.target
           headers := headers.coded octets, body := headers.framed octets }

end Client
end LedgerClient

import LedgerClient.Client.Exchange
import LedgerClient.Client.Filter

/-! Calls under construction: what is asked for, the filters that were set, and
the settings of the request. -/

namespace LedgerClient

/-- A call that takes the given filters and returns the given type. -/
structure Call (filters : List Filter) (α : Type) where
  method : Method
  path : List String
  body : Option Body
  decode : List UInt8 → Except Json.Error α
  /-- The filters that were set, by key, with the texts of their values. -/
  settings : Dictionary String
  options : Options

/-- Routes of a service. Each of them has a method and a path. -/
class Routes (ρ : Type) where
  method : ρ → Method
  path : ρ → List String

namespace Call

/-- A call with no settings yet, whose answer is read as JSON. -/
def of (method : Method) (path : List String) (body : Option Body) [Codec α] : Call filters α :=
  { method, path, body, decode := LedgerClient.decode α, settings := .empty, options := .empty }

/-- A call on a route that sends no body. -/
def on [Routes ρ] (route : ρ) [Codec α] : Call filters α := .of (Routes.method route) (Routes.path route) none

/-- A call whose answer is a text. -/
def ofText (method : Method) (path : List String) : Call filters String :=
  { method, path, body := none, decode := decodeText, settings := .empty, options := .empty }

/-- Sets a filter; the last value that is set counts. -/
def set (call : Call filters α) (filter : Filter) (value : filter.Value)
    (_taken : filter ∈ filters := by decide) : Call filters α :=
  { call with settings := call.settings.insert filter.key (filter.print value) }

/-- Adds a header to the request. -/
def header (call : Call filters α) (name value : String) : Call filters α :=
  { call with options := call.options.withHeader name value }

def timeout (call : Call filters α) (timeout : Duration) : Call filters α :=
  { call with options := call.options.withTimeout timeout }

def query (call : Call filters α) : Option String := Query.ofPairs call.settings.entries

def endpoint (call : Call filters α) : Endpoint α :=
  { method := call.method, path := call.path, query := .ok call.query, body := .ok call.body
    decode := call.decode }

def url (call : Call filters α) (client : Client) : Except ClientError Url :=
  client.url call.endpoint

def execute (call : Call filters α) (client : Client) (server : Option Reply) : Exchange α :=
  client.execute call.endpoint call.options server

def executeUntil (call : Call filters α) (client : Client) (signal : Signal) (server : Option Reply) :
    Exchange α :=
  client.executeUntil call.endpoint call.options signal server

end Call
end LedgerClient

import LedgerClient.Record.Model
import LedgerClient.Time.Duration
import LedgerClient.Url.Parser

/-! Settings of a client. -/

namespace LedgerClient

structure ClientConfig where
  address : Url
  token : String
  timeout : Duration
  headers : Dictionary String
  userAgent : Option String
deriving DecidableEq

namespace ClientConfig

def defaultTimeout : Duration := .ofSeconds 30

def ofAddress (address : Url) : ClientConfig :=
  { address, token := "", timeout := defaultTimeout, headers := .empty, userAgent := none }

def parse (address : String) : Except UrlFault ClientConfig :=
  (Url.parse address).map ofAddress

def withToken (config : ClientConfig) (token : String) : ClientConfig := { config with token }

def withTimeout (config : ClientConfig) (timeout : Duration) : ClientConfig := { config with timeout }

/-- A header of all requests; one that has the very same name is replaced. -/
def withHeader (config : ClientConfig) (name value : String) : ClientConfig :=
  { config with headers := config.headers.insert name value }

def withUserAgent (config : ClientConfig) (userAgent : String) : ClientConfig :=
  { config with userAgent := some userAgent }

/-- An address stands in JSON as a string. It may be missing where it is read, so
that what to say about that can be decided later. -/
@[reducible] def addressCodec : Codec (Option Url) :=
  Codec.text "a string representing an URL"
    (fun text => match Url.parse text with
      | .ok url => .ok (some url)
      | .error fault => .error (fault.message ++ ": " ++ Text.quoted text))
    fun url? => (url?.map Url.text).getD ""

/-- A span of time stands in JSON as a number of whole seconds. -/
@[reducible] def timeoutCodec : Codec Duration where
  read depth := return .ofSeconds (← (Codec.read depth : Json.Reader UInt64)).toNat
  ofJson value := return .ofSeconds (← (Codec.ofJson value : Except Json.Misfit UInt64)).toNat
  write timeout := .ofUInt64 (UInt64.ofNat timeout.wholeSeconds)

def fields : List Field := [
  ⟨"address", Option Url, addressCodec, none, Option.isNone⟩,
  .always "token" String,
  ⟨"http_timeout", Duration, timeoutCodec, defaultTimeout, fun _ => false⟩,
  .always "headers" (Dictionary String),
  .always "user_agent" (Option String)]

def ofRow (missing : Json.Misfit) (row : Row fields) : Except Json.Misfit ClientConfig :=
  match row with
  | (some address, token, timeout, headers, userAgent, ()) =>
    .ok { address, token, timeout, headers, userAgent }
  | (none, _) => .error missing

def name : String := "ClientConfig"

/-- Everything but the address may be left out. -/
def read (depth : Nat) : Json.Reader ClientConfig := Json.Reader.placed do
  let isList := (← Json.Reader.ahead) = some '['
  let row ← Row.read name fields depth
  Codec.lift (ofRow (if isList then .length 0 ("struct " ++ name ++ " with 5 elements") else .missing "address") row)

def decode (octets : List UInt8) : Except Json.Error ClientConfig :=
  (read Json.Reader.depthLimit).run octets

def quotedMap (table : Dictionary String) : String :=
  "\x7b" ++ ", ".intercalate (table.entries.map fun (key, value) => Text.quoted key ++ ": " ++ Text.quoted value) ++
    "\x7d"

/-- How settings are shown to developers. The token is not. -/
def label (config : ClientConfig) : String :=
  let token := if config.token = "" then "<empty>" else "<redacted>"
  let userAgent := match config.userAgent with
    | some userAgent => "Some(" ++ Text.quoted userAgent ++ ")"
    | none => "None"
  "ClientConfig \x7b address: " ++ Text.quoted config.address.text ++ ", token: " ++ Text.quoted token ++
    ", http_timeout: " ++ config.timeout.text ++ ", headers: " ++ quotedMap config.headers ++
    ", user_agent: " ++ userAgent ++ " \x7d"

end ClientConfig
end LedgerClient

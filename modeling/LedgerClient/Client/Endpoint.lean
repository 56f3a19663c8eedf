import LedgerClient.Client.Error
import LedgerClient.Record.Codec
import LedgerClient.Time.Duration

/-! What a call asks for, apart from the client that makes it. -/

namespace LedgerClient

/-- Where a request goes and how its answer is read. -/
structure Endpoint (α : Type) where
  method : Method
  /-- Each entry becomes one segment behind the path of the base address. -/
  path : List String
  query : Except ClientError (Option String)
  body : Except ClientError (Option Body)
  decode : List UInt8 → Except Json.Error α

/-- Settings of a single request. -/
structure Options where
  headers : List (String × String)
  timeout : Option Duration
deriving DecidableEq

namespace Options

def empty : Options := ⟨[], none⟩

def withHeader (options : Options) (name value : String) : Options :=
  { options with headers := options.headers ++ [(name, value)] }

def withTimeout (options : Options) (timeout : Duration) : Options :=
  { options with timeout }

end Options

/-- The text of a body, whatever its octets are. -/
def decodeText (body : List UInt8) : Except Json.Error String :=
  .ok (String.ofList (Utf8.decodeLossy body))

end LedgerClient

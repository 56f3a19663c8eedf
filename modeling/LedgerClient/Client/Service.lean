import LedgerClient.Client.Basic

/-! The two services that clients talk to. -/

namespace LedgerClient

/-- A service has a header for its token, and a place where it runs locally. -/
structure Service where
  tokenHeader : HeaderName
  localAddress : String
  localToken : String

namespace Service

/-- A node, which holds the ledger. -/
def node : Service :=
  { tokenHeader := ⟨"x-algo-api-token", by decide⟩, localAddress := "http://localhost:4001"
    localToken := String.ofList (List.replicate 64 'a') }

/-- An indexer, which answers searches. -/
def indexer : Service :=
  { tokenHeader := ⟨"x-indexer-api-token", by decide⟩, localAddress := "http://localhost:8980"
    localToken := "" }

def connectWith (service : Service) (config : ClientConfig) : Except ClientError Client :=
  Client.ofConfig config service.tokenHeader

def connect (service : Service) (address token : String) : Except ClientError Client :=
  match ClientConfig.parse address with
  | .ok config => service.connectWith (config.withToken token)
  | .error fault => .error (.url fault)

def connectLocally (service : Service) : Except ClientError Client :=
  service.connect service.localAddress service.localToken

end Service
end LedgerClient

import LedgerClient.Client.Call
import LedgerClient.Model.Dryrun
import LedgerClient.Node.Route

/-! The calls of a node. -/

namespace LedgerClient.Node

instance : Routes Route := ⟨Route.method, Route.path⟩

def accountInformation (address : String) : Call [] Account := .on (Route.accountInformation address)

def pendingTransactionsByAddress (address : String) : Call [.max] PendingTransactionsResponse :=
  .on (Route.pendingTransactionsByAddress address)

def applicationById (id : UInt64) : Call [] Application := .on (Route.applicationById id)

def assetById (id : UInt64) : Call [] Asset := .on (Route.assetById id)

def block (round : UInt64) : Call [] BlockResponse := .on (Route.block round)

def supply : Call [] SupplyResponse := .on Route.supply

def startCatchup (catchpoint : String) : Call [] CatchpointStartResponse := .on (Route.startCatchup catchpoint)

def abortCatchup (catchpoint : String) : Call [] CatchpointAbortResponse := .on (Route.abortCatchup catchpoint)

def status : Call [] NodeStatusResponse := .on Route.status

/-- Waits for the block after a round. -/
def waitForBlock (round : UInt64) : Call [] NodeStatusResponse := .on (Route.waitForBlock round)

def tealCompile (source : String) : Call [] CompileResponse :=
  .of Route.tealCompile.method Route.tealCompile.path (some (.text source))

def tealDryrun (request : DryrunRequest) : Call [] DryrunResponse :=
  .of Route.tealDryrun.method Route.tealDryrun.path (some (.json (Utf8.encode (encode request).toList)))

def rawTransaction (signed : List UInt8) : Call [] PostTransactionsResponse :=
  .of Route.rawTransaction.method Route.rawTransaction.path (some (.binary signed))

def transactionParams : Call [] TransactionParametersResponse := .on Route.transactionParams

def pendingTransactions : Call [.max] PendingTransactionsResponse := .on Route.pendingTransactions

def pendingTransactionInformation (id : String) : Call [] PendingTransactionResponse :=
  .on (Route.pendingTransactionInformation id)

def healthCheck : Call [] String := .ofText Route.healthCheck.method Route.healthCheck.path

def metrics : Call [] String := .ofText Route.metrics.method Route.metrics.path

def swaggerJson : Call [] RawJson := .on Route.swaggerJson

def versions : Call [] Version := .on Route.versions

end LedgerClient.Node

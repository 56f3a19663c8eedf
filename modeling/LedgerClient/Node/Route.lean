import LedgerClient.Http.Message

/-! The routes of a node, with the parameters that stand in their paths. -/

namespace LedgerClient.Node

inductive Route
  | accountInformation (address : String)
  | pendingTransactionsByAddress (address : String)
  | applicationById (id : UInt64)
  | assetById (id : UInt64)
  | block (round : UInt64)
  | supply
  | startCatchup (catchpoint : String)
  | abortCatchup (catchpoint : String)
  | status
  | waitForBlock (round : UInt64)
  | tealCompile
  | tealDryrun
  | rawTransaction
  | transactionParams
  | pendingTransactions
  | pendingTransactionInformation (id : String)
  | healthCheck
  | metrics
  | swaggerJson
  | versions
deriving DecidableEq, Repr

namespace Route

def method : Route → Method
  | startCatchup _ | tealCompile | tealDryrun | rawTransaction => .post
  | abortCatchup _ => .delete
  | _ => .get

def path : Route → List String
  | accountInformation address => ["v2", "accounts", address]
  | pendingTransactionsByAddress address => ["v2", "accounts", address, "transactions", "pending"]
  | applicationById id => ["v2", "applications", toString id]
  | assetById id => ["v2", "assets", toString id]
  | block round => ["v2", "blocks", toString round]
  | supply => ["v2", "ledger", "supply"]
  | startCatchup catchpoint => ["v2", "catchup", catchpoint]
  | abortCatchup catchpoint => ["v2", "catchup", catchpoint]
  | status => ["v2", "status"]
  | waitForBlock round => ["v2", "status", "wait-for-block-after", toString round]
  | tealCompile => ["v2", "teal", "compile"]
  | tealDryrun => ["v2", "teal", "dryrun"]
  | rawTransaction => ["v2", "transactions"]
  | transactionParams => ["v2", "transactions", "params"]
  | pendingTransactions => ["v2", "transactions", "pending"]
  | pendingTransactionInformation id => ["v2", "transactions", "pending", id]
  | healthCheck => ["health"]
  | metrics => ["metrics"]
  | swaggerJson => ["swagger.json"]
  | versions => ["versions"]

end Route
end LedgerClient.Node

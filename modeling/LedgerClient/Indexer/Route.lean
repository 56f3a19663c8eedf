import LedgerClient.Http.Message

/-! The routes of an indexer, with the parameters that stand in their paths. -/

namespace LedgerClient.Indexer

inductive Route
  | searchForAccounts
  | lookupAccountById (account : String)
  | lookupAccountTransactions (account : String)
  | searchForApplications
  | lookupApplicationById (id : UInt64)
  | searchForAssets
  | lookupAssetById (id : UInt64)
  | lookupAssetBalances (id : UInt64)
  | lookupAssetTransactions (id : UInt64)
  | lookupBlock (round : UInt64)
  | searchForTransactions
  | healthCheck
deriving DecidableEq, Repr

namespace Route

/-- All calls of an indexer only read. -/
def method (_ : Route) : Method := .get

def path : Route → List String
  | searchForAccounts => ["v2", "accounts"]
  | lookupAccountById account => ["v2", "accounts", account]
  | lookupAccountTransactions account => ["v2", "accounts", account, "transactions"]
  | searchForApplications => ["v2", "applications"]
  | lookupApplicationById id => ["v2", "applications", toString id]
  | searchForAssets => ["v2", "assets"]
  | lookupAssetById id => ["v2", "assets", toString id]
  | lookupAssetBalances id => ["v2", "assets", toString id, "balances"]
  | lookupAssetTransactions id => ["v2", "assets", toString id, "transactions"]
  | lookupBlock round => ["v2", "blocks", toString round]
  | searchForTransactions => ["v2", "transactions"]
  | healthCheck => ["health"]

end Route
end LedgerClient.Indexer

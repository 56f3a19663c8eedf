import LedgerClient.Client.Call
import LedgerClient.Indexer.Route
import LedgerClient.Model.Block
import LedgerClient.Model.Search

/-! The calls of an indexer, with the filters that each of them takes. -/

namespace LedgerClient.Indexer

instance : Routes Route := ⟨Route.method, Route.path⟩

abbrev accountFilters : List Filter :=
  [.applicationId, .assetId, .authAddr, .currencyGreaterThan, .currencyLessThan, .limit, .next, .round]

def searchForAccounts : Call accountFilters AccountsResponse := .on Route.searchForAccounts

def lookupAccountById (account : String) : Call [.round] AccountResponse := .on (Route.lookupAccountById account)

abbrev accountTransactionFilters : List Filter :=
  [.afterTime, .assetId, .beforeTime, .currencyGreaterThan, .currencyLessThan, .limit, .maxRound, .minRound,
    .next, .notePrefix, .rekeyTo, .round, .sigType, .txType, .txId]

def lookupAccountTransactions (account : String) : Call accountTransactionFilters TransactionsResponse :=
  .on (Route.lookupAccountTransactions account)

def searchForApplications : Call [.applicationId] ApplicationsResponse := .on Route.searchForApplications

def lookupApplicationById (id : UInt64) : Call [] ApplicationResponse := .on (Route.lookupApplicationById id)

abbrev assetFilters : List Filter := [.assetId, .creator, .limit, .name, .next, .unit]

def searchForAssets : Call assetFilters AssetsResponse := .on Route.searchForAssets

def lookupAssetById (id : UInt64) : Call [] AssetResponse := .on (Route.lookupAssetById id)

abbrev balanceFilters : List Filter := [.currencyGreaterThan, .currencyLessThan, .limit, .next, .round]

def lookupAssetBalances (id : UInt64) : Call balanceFilters AssetBalancesResponse :=
  .on (Route.lookupAssetBalances id)

abbrev assetTransactionFilters : List Filter :=
  [.address, .addressRole, .afterTime, .beforeTime, .currencyGreaterThan, .currencyLessThan, .excludeCloseTo,
    .limit, .maxRound, .minRound, .next, .notePrefix, .rekeyTo, .round, .sigType, .txType, .txId]

def lookupAssetTransactions (id : UInt64) : Call assetTransactionFilters TransactionsResponse :=
  .on (Route.lookupAssetTransactions id)

def lookupBlock (round : UInt64) : Call [] Block := .on (Route.lookupBlock round)

abbrev transactionFilters : List Filter :=
  [.address, .addressRole, .afterTime, .applicationId, .assetId, .beforeTime, .currencyGreaterThan,
    .currencyLessThan, .excludeCloseTo, .limit, .maxRound, .minRound, .next, .notePrefix, .rekeyTo, .round,
    .sigType, .txType, .txId]

def searchForTransactions : Call transactionFilters TransactionsResponse := .on Route.searchForTransactions

def healthCheck : Call [] HealthCheck := .on Route.healthCheck

end LedgerClient.Indexer

import LedgerClient.Model.Block
import LedgerClient.Model.Dryrun
import LedgerClient.Model.Search
import LedgerClient.Model.Status

/-! All records of the library by name, and what pages of results share. -/

namespace LedgerClient

/-- Results that come in pages. -/
class Paged (α : Type) where
  /-- What a page calls the next one; empty on the last page. -/
  token : α → String

/-- The name of the next page, if there is one. -/
def nextToken [Paged α] (page : α) : Option String :=
  if Paged.token page = "" then none else some (Paged.token page)

instance : Paged AccountsResponse := ⟨AccountsResponse.nextToken⟩
instance : Paged AssetBalancesResponse := ⟨AssetBalancesResponse.nextToken⟩
instance : Paged ApplicationsResponse := ⟨ApplicationsResponse.nextToken⟩
instance : Paged AssetsResponse := ⟨AssetsResponse.nextToken⟩
instance : Paged TransactionsResponse := ⟨TransactionsResponse.nextToken⟩

/-- Whether more transactions wait than are listed. -/
def PendingTransactionsResponse.isTruncated (pending : PendingTransactionsResponse) : Bool :=
  pending.topTransactions.length < pending.totalTransactions.toNat

/-- A record type with what can be asked of its values. -/
structure Catalogue.Entry where
  Record : Type
  blank : Inhabited Record
  model : Model Record
  same : DecidableEq Record

namespace Catalogue

def Entry.of (α : Type) [blank : Inhabited α] [model : Model α] [same : DecidableEq α] : Entry :=
  ⟨α, blank, model, same⟩

def Entry.name (entry : Entry) : String :=
  letI := entry.blank
  letI := entry.model
  Model.name entry.Record

def entries : List Entry := [
  .of ApplicationStateSchema, .of StateSchema, .of TealValue, .of TealKeyValue, .of EvalDelta,
  .of EvalDeltaKeyValue, .of AccountStateDelta, .of ApplicationParams, .of Application,
  .of ApplicationLocalState, .of AssetParams, .of Asset, .of AssetHolding, .of MiniAssetHolding,
  .of AccountParticipation, .of Account, .of TransactionSignatureMultisigSubsignature,
  .of TransactionSignatureMultisig, .of TransactionSignatureLogicsig, .of TransactionSignature,
  .of TransactionApplication, .of TransactionAssetConfig, .of TransactionAssetFreeze,
  .of TransactionAssetTransfer, .of TransactionKeyreg, .of TransactionPayment, .of Transaction,
  .of BlockRewards, .of BlockUpgradeState, .of BlockUpgradeVote, .of Block, .of ErrorResponse,
  .of VersionBuild, .of Version, .of NodeStatusResponse, .of SupplyResponse,
  .of TransactionParametersResponse, .of BlockResponse, .of CatchpointStartResponse,
  .of CatchpointAbortResponse, .of PendingTransactionResponse, .of PendingTransactionsResponse,
  .of PostTransactionsResponse, .of CompileResponse, .of DryrunSource, .of DryrunRequest,
  .of DryrunState, .of DryrunTxnResult, .of DryrunResponse, .of HealthCheck, .of AccountResponse,
  .of AccountsResponse, .of AssetBalancesResponse, .of ApplicationResponse, .of ApplicationsResponse,
  .of AssetResponse, .of AssetsResponse, .of TransactionsResponse]

def find? (name : String) : Option Entry := entries.find? (·.name = name)

end Catalogue
end LedgerClient

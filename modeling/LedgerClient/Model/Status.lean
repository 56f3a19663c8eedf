import LedgerClient.Record.Model

/-! What a node tells about itself, its ledger and its queue. -/

namespace LedgerClient

/-- What a server says when it refuses a request. -/
structure ErrorResponse where
  data : Option RawJson
  message : String
deriving DecidableEq, Inhabited

instance : Model ErrorResponse where
  name := "ErrorResponse"
  fields := [.always "data" (Option RawJson), .always "message" String]
  toRow r := (r.data, r.message, ())
  ofRow := fun (data, message, ()) => ⟨data, message⟩

structure VersionBuild where
  branch : String
  buildNumber : UInt64
  channel : String
  commitHash : Bytes
  major : UInt64
  minor : UInt64
deriving DecidableEq, Inhabited

instance : Model VersionBuild where
  name := "VersionBuild"
  fields := [
    .always "branch" String, .always "build-number" UInt64, .always "channel" String,
    .always "commit-hash" Bytes, .always "major" UInt64, .always "minor" UInt64]
  toRow r := (r.branch, r.buildNumber, r.channel, r.commitHash, r.major, r.minor, ())
  ofRow := fun (
      branch, buildNumber, channel, commitHash, major, minor, ()) => ⟨
    branch, buildNumber, channel, commitHash, major, minor⟩

structure Version where
  build : VersionBuild
  genesisHash : Bytes
  genesisId : String
  versions : List String
deriving DecidableEq, Inhabited

instance : Model Version where
  name := "Version"
  fields := [
    .always "build" VersionBuild, .always "genesis-hash" Bytes, .always "genesis-id" String,
    .always "versions" (List String)]
  toRow r := (r.build, r.genesisHash, r.genesisId, r.versions, ())
  ofRow := fun (
      build, genesisHash, genesisId, versions, ()) => ⟨
    build, genesisHash, genesisId, versions⟩

/-- How far a node has come. -/
structure NodeStatusResponse where
  catchpoint : String
  catchpointAcquiredBlocks : UInt64
  catchpointProcessedAccounts : UInt64
  catchpointTotalAccounts : UInt64
  catchpointTotalBlocks : UInt64
  catchupTime : UInt64
  lastCatchpoint : String
  lastRound : UInt64
  lastVersion : String
  nextVersion : String
  nextVersionRound : UInt64
  nextVersionSupported : Bool
  stoppedAtUnsupportedRound : Bool
  timeSinceLastRound : UInt64
deriving DecidableEq, Inhabited

instance : Model NodeStatusResponse where
  name := "NodeStatusResponse"
  fields := [
    .always "catchpoint" String, .always "catchpoint-acquired-blocks" UInt64,
    .always "catchpoint-processed-accounts" UInt64, .always "catchpoint-total-accounts" UInt64,
    .always "catchpoint-total-blocks" UInt64, .always "catchup-time" UInt64,
    .always "last-catchpoint" String, .always "last-round" UInt64, .always "last-version" String,
    .always "next-version" String, .always "next-version-round" UInt64,
    .always "next-version-supported" Bool, .always "stopped-at-unsupported-round" Bool,
    .always "time-since-last-round" UInt64]
  toRow r := (
    r.catchpoint, r.catchpointAcquiredBlocks, r.catchpointProcessedAccounts, r.catchpointTotalAccounts,
    r.catchpointTotalBlocks, r.catchupTime, r.lastCatchpoint, r.lastRound, r.lastVersion, r.nextVersion,
    r.nextVersionRound, r.nextVersionSupported, r.stoppedAtUnsupportedRound, r.timeSinceLastRound, ())
  ofRow := fun (
      catchpoint, catchpointAcquiredBlocks, catchpointProcessedAccounts, catchpointTotalAccounts,
      catchpointTotalBlocks, catchupTime, lastCatchpoint, lastRound, lastVersion, nextVersion,
      nextVersionRound, nextVersionSupported, stoppedAtUnsupportedRound, timeSinceLastRound, ()) => ⟨
    catchpoint, catchpointAcquiredBlocks, catchpointProcessedAccounts, catchpointTotalAccounts,
    catchpointTotalBlocks, catchupTime, lastCatchpoint, lastRound, lastVersion, nextVersion,
    nextVersionRound, nextVersionSupported, stoppedAtUnsupportedRound, timeSinceLastRound⟩

structure SupplyResponse where
  currentRound : UInt64
  onlineMoney : UInt64
  totalMoney : UInt64
deriving DecidableEq, Inhabited

instance : Model SupplyResponse where
  name := "SupplyResponse"
  fields := [
    .always "current_round" UInt64, .always "online-money" UInt64, .always "total-money" UInt64]
  toRow r := (r.currentRound, r.onlineMoney, r.totalMoney, ())
  ofRow := fun (currentRound, onlineMoney, totalMoney, ()) => ⟨currentRound, onlineMoney, totalMoney⟩

/-- What a new transaction should say. -/
structure TransactionParametersResponse where
  consensusVersion : String
  fee : UInt64
  genesisHash : Bytes
  genesisId : String
  lastRound : UInt64
  minFee : UInt64
deriving DecidableEq, Inhabited

instance : Model TransactionParametersResponse where
  name := "TransactionParametersResponse"
  fields := [
    .always "consensus-version" String, .always "fee" UInt64, .always "genesis-hash" Bytes,
    .always "genesis-id" String, .always "last-round" UInt64, .always "min-fee" UInt64]
  toRow r := (r.consensusVersion, r.fee, r.genesisHash, r.genesisId, r.lastRound, r.minFee, ())
  ofRow := fun (
      consensusVersion, fee, genesisHash, genesisId, lastRound, minFee, ()) => ⟨
    consensusVersion, fee, genesisHash, genesisId, lastRound, minFee⟩

/-- A block in raw form with its certificate. -/
structure BlockResponse where
  block : RawJson
  cert : Option RawJson
deriving DecidableEq, Inhabited

instance : Model BlockResponse where
  name := "BlockResponse"
  fields := [.always "block" RawJson, .whenSome "cert" RawJson]
  toRow r := (r.block, r.cert, ())
  ofRow := fun (block, cert, ()) => ⟨block, cert⟩

structure CatchpointStartResponse where
  catchupMessage : String
deriving DecidableEq, Inhabited

instance : Model CatchpointStartResponse where
  name := "CatchpointStartResponse"
  fields := [.always "catchup-message" String]
  toRow r := (r.catchupMessage, ())
  ofRow := fun (catchupMessage, ()) => ⟨catchupMessage⟩

structure CatchpointAbortResponse where
  catchupMessage : String
deriving DecidableEq, Inhabited

instance : Model CatchpointAbortResponse where
  name := "CatchpointAbortResponse"
  fields := [.always "catchup-message" String]
  toRow r := (r.catchupMessage, ())
  ofRow := fun (catchupMessage, ()) => ⟨catchupMessage⟩

/-- A transaction that waits or was confirmed of late. -/
structure PendingTransactionResponse where
  assetIndex : UInt64
  closeRewards : UInt64
  closingAmount : UInt64
  confirmedRound : UInt64
  poolError : String
  receiverRewards : UInt64
  senderRewards : UInt64
  txn : RawJson
deriving DecidableEq, Inhabited

instance : Model PendingTransactionResponse where
  name := "PendingTransactionResponse"
  fields := [
    .always "asset-index" UInt64, .always "close-rewards" UInt64, .always "closing-amount" UInt64,
    .always "confirmed-round" UInt64, .always "pool-error" String, .always "receiver-rewards" UInt64,
    .always "sender-rewards" UInt64, .always "txn" RawJson]
  toRow r := (
    r.assetIndex, r.closeRewards, r.closingAmount, r.confirmedRound, r.poolError, r.receiverRewards,
    r.senderRewards, r.txn, ())
  ofRow := fun (
      assetIndex, closeRewards, closingAmount, confirmedRound, poolError, receiverRewards,
      senderRewards, txn, ()) => ⟨
    assetIndex, closeRewards, closingAmount, confirmedRound, poolError, receiverRewards, senderRewards,
    txn⟩

structure PendingTransactionsResponse where
  topTransactions : List RawJson
  totalTransactions : UInt64
deriving DecidableEq, Inhabited

instance : Model PendingTransactionsResponse where
  name := "PendingTransactionsResponse"
  fields := [.always "top-transactions" (List RawJson), .always "total-transactions" UInt64]
  toRow r := (r.topTransactions, r.totalTransactions, ())
  ofRow := fun (topTransactions, totalTransactions, ()) => ⟨topTransactions, totalTransactions⟩

structure PostTransactionsResponse where
  txId : String
deriving DecidableEq, Inhabited

instance : Model PostTransactionsResponse where
  name := "PostTransactionsResponse"
  fields := [.always "txId" String]
  toRow r := (r.txId, ())
  ofRow := fun (txId, ()) => ⟨txId⟩

structure CompileResponse where
  hash : String
  result : String
deriving DecidableEq, Inhabited

instance : Model CompileResponse where
  name := "CompileResponse"
  fields := [.always "hash" String, .always "result" String]
  toRow r := (r.hash, r.result, ())
  ofRow := fun (hash, result, ()) => ⟨hash, result⟩

end LedgerClient

import LedgerClient.Model.Asset
import LedgerClient.Model.Signature
import LedgerClient.Model.State

/-! Confirmed transactions, with one section for each kind. -/

namespace LedgerClient

structure TransactionApplication where
  accounts : List String
  applicationArgs : List Bytes
  applicationId : UInt64
  approvalProgram : Bytes
  clearStateProgram : Bytes
  foreignApps : List UInt64
  globalStateSchema : Option StateSchema
  localStateSchema : Option StateSchema
  onCompletion : String
deriving DecidableEq, Inhabited

instance : Model TransactionApplication where
  name := "TransactionApplication"
  fields := [
    .always "accounts" (List String), .always "application-args" (List Bytes),
    .always "application-id" UInt64, .always "approval-program" Bytes,
    .always "clear-state-program" Bytes, .always "foreign-apps" (List UInt64),
    .whenSome "global-state-schema" StateSchema, .whenSome "local-state-schema" StateSchema,
    .always "on-completion" String]
  toRow r := (
    r.accounts, r.applicationArgs, r.applicationId, r.approvalProgram, r.clearStateProgram,
    r.foreignApps, r.globalStateSchema, r.localStateSchema, r.onCompletion, ())
  ofRow := fun (
      accounts, applicationArgs, applicationId, approvalProgram, clearStateProgram, foreignApps,
      globalStateSchema, localStateSchema, onCompletion, ()) => ⟨
    accounts, applicationArgs, applicationId, approvalProgram, clearStateProgram, foreignApps,
    globalStateSchema, localStateSchema, onCompletion⟩

structure TransactionAssetConfig where
  assetId : UInt64
  params : Option AssetParams
deriving DecidableEq, Inhabited

instance : Model TransactionAssetConfig where
  name := "TransactionAssetConfig"
  fields := [.always "asset-id" UInt64, .whenSome "params" AssetParams]
  toRow r := (r.assetId, r.params, ())
  ofRow := fun (assetId, params, ()) => ⟨assetId, params⟩

structure TransactionAssetFreeze where
  address : String
  assetId : UInt64
  newFreezeStatus : Bool
deriving DecidableEq, Inhabited

instance : Model TransactionAssetFreeze where
  name := "TransactionAssetFreeze"
  fields := [.always "address" String, .always "asset-id" UInt64, .always "new-freeze-status" Bool]
  toRow r := (r.address, r.assetId, r.newFreezeStatus, ())
  ofRow := fun (address, assetId, newFreezeStatus, ()) => ⟨address, assetId, newFreezeStatus⟩

structure TransactionAssetTransfer where
  amount : UInt64
  assetId : UInt64
  closeAmount : UInt64
  closeTo : String
  receiver : String
  sender : String
deriving DecidableEq, Inhabited

instance : Model TransactionAssetTransfer where
  name := "TransactionAssetTransfer"
  fields := [
    .always "amount" UInt64, .always "asset-id" UInt64, .always "close-amount" UInt64,
    .always "close-to" String, .always "receiver" String, .always "sender" String]
  toRow r := (r.amount, r.assetId, r.closeAmount, r.closeTo, r.receiver, r.sender, ())
  ofRow := fun (
      amount, assetId, closeAmount, closeTo, receiver, sender, ()) => ⟨
    amount, assetId, closeAmount, closeTo, receiver, sender⟩

structure TransactionKeyreg where
  nonParticipation : Bool
  selectionParticipationKey : Bytes
  voteFirstValid : UInt64
  voteKeyDilution : UInt64
  voteLastValid : UInt64
  voteParticipationKey : Bytes
deriving DecidableEq, Inhabited

instance : Model TransactionKeyreg where
  name := "TransactionKeyreg"
  fields := [
    .always "non-participation" Bool, .always "selection-participation-key" Bytes,
    .always "vote-first-valid" UInt64, .always "vote-key-dilution" UInt64,
    .always "vote-last-valid" UInt64, .always "vote-participation-key" Bytes]
  toRow r := (
    r.nonParticipation, r.selectionParticipationKey, r.voteFirstValid, r.voteKeyDilution,
    r.voteLastValid, r.voteParticipationKey, ())
  ofRow := fun (
      nonParticipation, selectionParticipationKey, voteFirstValid, voteKeyDilution, voteLastValid,
      voteParticipationKey, ()) => ⟨
    nonParticipation, selectionParticipationKey, voteFirstValid, voteKeyDilution, voteLastValid,
    voteParticipationKey⟩

structure TransactionPayment where
  amount : UInt64
  closeAmount : UInt64
  closeRemainderTo : String
  receiver : String
deriving DecidableEq, Inhabited

instance : Model TransactionPayment where
  name := "TransactionPayment"
  fields := [
    .always "amount" UInt64, .always "close-amount" UInt64, .always "close-remainder-to" String,
    .always "receiver" String]
  toRow r := (r.amount, r.closeAmount, r.closeRemainderTo, r.receiver, ())
  ofRow := fun (
      amount, closeAmount, closeRemainderTo, receiver, ()) => ⟨
    amount, closeAmount, closeRemainderTo, receiver⟩

/-- A transaction with what the ledger knows about it. -/
structure Transaction where
  applicationTransaction : Option TransactionApplication
  assetConfigTransaction : Option TransactionAssetConfig
  assetFreezeTransaction : Option TransactionAssetFreeze
  assetTransferTransaction : Option TransactionAssetTransfer
  authAddr : String
  closeRewards : UInt64
  closingAmount : UInt64
  confirmedRound : UInt64
  createdApplicationIndex : UInt64
  createdAssetIndex : UInt64
  fee : UInt64
  firstValid : UInt64
  genesisHash : Bytes
  genesisId : String
  globalStateDelta : List EvalDeltaKeyValue
  group : Bytes
  id : String
  intraRoundOffset : UInt64
  keyregTransaction : Option TransactionKeyreg
  lastValid : UInt64
  lease : Bytes
  localStateDelta : List AccountStateDelta
  note : Bytes
  paymentTransaction : Option TransactionPayment
  receiverRewards : UInt64
  rekeyTo : String
  roundTime : UInt64
  sender : String
  senderRewards : UInt64
  signature : Option TransactionSignature
  txType : String
deriving DecidableEq, Inhabited

instance : Model Transaction where
  name := "Transaction"
  fields := [
    .whenSome "application-transaction" TransactionApplication,
    .whenSome "asset-config-transaction" TransactionAssetConfig,
    .whenSome "asset-freeze-transaction" TransactionAssetFreeze,
    .whenSome "asset-transfer-transaction" TransactionAssetTransfer, .always "auth-addr" String,
    .always "close-rewards" UInt64, .always "closing-amount" UInt64, .always "confirmed-round" UInt64,
    .always "created-application-index" UInt64, .always "created-asset-index" UInt64,
    .always "fee" UInt64, .always "first-valid" UInt64, .always "genesis-hash" Bytes,
    .always "genesis-id" String, .always "global-state-delta" (List EvalDeltaKeyValue),
    .always "group" Bytes, .always "id" String, .always "intra-round-offset" UInt64,
    .whenSome "keyreg-transaction" TransactionKeyreg, .always "last-valid" UInt64,
    .always "lease" Bytes, .always "local-state-delta" (List AccountStateDelta), .always "note" Bytes,
    .whenSome "payment-transaction" TransactionPayment, .always "receiver-rewards" UInt64,
    .always "rekey-to" String, .always "round-time" UInt64, .always "sender" String,
    .always "sender-rewards" UInt64, .whenSome "signature" TransactionSignature,
    .always "tx-type" String]
  toRow r := (
    r.applicationTransaction, r.assetConfigTransaction, r.assetFreezeTransaction,
    r.assetTransferTransaction, r.authAddr, r.closeRewards, r.closingAmount, r.confirmedRound,
    r.createdApplicationIndex, r.createdAssetIndex, r.fee, r.firstValid, r.genesisHash, r.genesisId,
    r.globalStateDelta, r.group, r.id, r.intraRoundOffset, r.keyregTransaction, r.lastValid, r.lease,
    r.localStateDelta, r.note, r.paymentTransaction, r.receiverRewards, r.rekeyTo, r.roundTime,
    r.sender, r.senderRewards, r.signature, r.txType, ())
  ofRow := fun (
      applicationTransaction, assetConfigTransaction, assetFreezeTransaction, assetTransferTransaction,
      authAddr, closeRewards, closingAmount, confirmedRound, createdApplicationIndex, createdAssetIndex,
      fee, firstValid, genesisHash, genesisId, globalStateDelta, group, id, intraRoundOffset,
      keyregTransaction, lastValid, lease, localStateDelta, note, paymentTransaction, receiverRewards,
      rekeyTo, roundTime, sender, senderRewards, signature, txType, ()) => ⟨
    applicationTransaction, assetConfigTransaction, assetFreezeTransaction, assetTransferTransaction,
    authAddr, closeRewards, closingAmount, confirmedRound, createdApplicationIndex, createdAssetIndex,
    fee, firstValid, genesisHash, genesisId, globalStateDelta, group, id, intraRoundOffset,
    keyregTransaction, lastValid, lease, localStateDelta, note, paymentTransaction, receiverRewards,
    rekeyTo, roundTime, sender, senderRewards, signature, txType⟩

end LedgerClient

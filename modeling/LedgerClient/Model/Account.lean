import LedgerClient.Model.Application
import LedgerClient.Model.Asset

/-! Accounts with all they hold and have made. -/

namespace LedgerClient

/-- The keys with which an account takes part in consensus. -/
structure AccountParticipation where
  selectionParticipationKey : Bytes
  voteFirstValid : UInt64
  voteKeyDilution : UInt64
  voteLastValid : UInt64
  voteParticipationKey : Bytes
deriving DecidableEq, Inhabited

instance : Model AccountParticipation where
  name := "AccountParticipation"
  fields := [
    .always "selection-participation-key" Bytes, .always "vote-first-valid" UInt64,
    .always "vote-key-dilution" UInt64, .always "vote-last-valid" UInt64,
    .always "vote-participation-key" Bytes]
  toRow r := (
    r.selectionParticipationKey, r.voteFirstValid, r.voteKeyDilution, r.voteLastValid,
    r.voteParticipationKey, ())
  ofRow := fun (
      selectionParticipationKey, voteFirstValid, voteKeyDilution, voteLastValid, voteParticipationKey,
      ()) => ⟨
    selectionParticipationKey, voteFirstValid, voteKeyDilution, voteLastValid, voteParticipationKey⟩

/-- An account at a round. -/
structure Account where
  address : String
  amount : UInt64
  amountWithoutPendingRewards : UInt64
  appsLocalState : List ApplicationLocalState
  appsTotalSchema : ApplicationStateSchema
  assets : List AssetHolding
  authAddr : String
  createdApps : List Application
  createdAssets : List Asset
  participation : Option AccountParticipation
  pendingRewards : UInt64
  rewardBase : UInt64
  rewards : UInt64
  round : UInt64
  sigType : String
  status : String
deriving DecidableEq, Inhabited

instance : Model Account where
  name := "Account"
  fields := [
    .always "address" String, .always "amount" UInt64, .always "amount-without-pending-rewards" UInt64,
    .always "apps-local-state" (List ApplicationLocalState),
    .always "apps-total-schema" ApplicationStateSchema, .always "assets" (List AssetHolding),
    .always "auth-addr" String, .always "created-apps" (List Application),
    .always "created-assets" (List Asset), .whenSome "participation" AccountParticipation,
    .always "pending-rewards" UInt64, .always "reward-base" UInt64, .always "rewards" UInt64,
    .always "round" UInt64, .always "sig-type" String, .always "status" String]
  toRow r := (
    r.address, r.amount, r.amountWithoutPendingRewards, r.appsLocalState, r.appsTotalSchema, r.assets,
    r.authAddr, r.createdApps, r.createdAssets, r.participation, r.pendingRewards, r.rewardBase,
    r.rewards, r.round, r.sigType, r.status, ())
  ofRow := fun (
      address, amount, amountWithoutPendingRewards, appsLocalState, appsTotalSchema, assets, authAddr,
      createdApps, createdAssets, participation, pendingRewards, rewardBase, rewards, round, sigType,
      status, ()) => ⟨
    address, amount, amountWithoutPendingRewards, appsLocalState, appsTotalSchema, assets, authAddr,
    createdApps, createdAssets, participation, pendingRewards, rewardBase, rewards, round, sigType,
    status⟩

end LedgerClient

import LedgerClient.Model.Transaction

/-! Blocks of the ledger. -/

namespace LedgerClient

structure BlockRewards where
  feeSink : String
  rewardsCalculationRound : UInt64
  rewardsLevel : UInt64
  rewardsPool : String
  rewardsRate : UInt64
  rewardsResidue : UInt64
deriving DecidableEq, Inhabited

instance : Model BlockRewards where
  name := "BlockRewards"
  fields := [
    .always "fee-sink" String, .always "rewards-calculation-round" UInt64,
    .always "rewards-level" UInt64, .always "rewards-pool" String, .always "rewards-rate" UInt64,
    .always "rewards-residue" UInt64]
  toRow r := (
    r.feeSink, r.rewardsCalculationRound, r.rewardsLevel, r.rewardsPool, r.rewardsRate,
    r.rewardsResidue, ())
  ofRow := fun (
      feeSink, rewardsCalculationRound, rewardsLevel, rewardsPool, rewardsRate, rewardsResidue, ()) => ⟨
    feeSink, rewardsCalculationRound, rewardsLevel, rewardsPool, rewardsRate, rewardsResidue⟩

/-- The protocol in force and the one that is voted on. -/
structure BlockUpgradeState where
  currentProtocol : String
  nextProtocol : String
  nextProtocolApprovals : UInt64
  nextProtocolSwitchOn : UInt64
  nextProtocolVoteBefore : UInt64
deriving DecidableEq, Inhabited

instance : Model BlockUpgradeState where
  name := "BlockUpgradeState"
  fields := [
    .always "current-protocol" String, .always "next-protocol" String,
    .always "next-protocol-approvals" UInt64, .always "next-protocol-switch-on" UInt64,
    .always "next-protocol-vote-before" UInt64]
  toRow r := (
    r.currentProtocol, r.nextProtocol, r.nextProtocolApprovals, r.nextProtocolSwitchOn,
    r.nextProtocolVoteBefore, ())
  ofRow := fun (
      currentProtocol, nextProtocol, nextProtocolApprovals, nextProtocolSwitchOn,
      nextProtocolVoteBefore, ()) => ⟨
    currentProtocol, nextProtocol, nextProtocolApprovals, nextProtocolSwitchOn, nextProtocolVoteBefore⟩

/-- The vote of the proposer. -/
structure BlockUpgradeVote where
  upgradeApprove : Bool
  upgradeDelay : UInt64
  upgradePropose : String
deriving DecidableEq, Inhabited

instance : Model BlockUpgradeVote where
  name := "BlockUpgradeVote"
  fields := [
    .always "upgrade-approve" Bool, .always "upgrade-delay" UInt64, .always "upgrade-propose" String]
  toRow r := (r.upgradeApprove, r.upgradeDelay, r.upgradePropose, ())
  ofRow := fun (
      upgradeApprove, upgradeDelay, upgradePropose, ()) => ⟨
    upgradeApprove, upgradeDelay, upgradePropose⟩

structure Block where
  genesisHash : Bytes
  genesisId : String
  previousBlockHash : Bytes
  rewards : BlockRewards
  round : UInt64
  seed : Bytes
  timestamp : UInt64
  transactions : List Transaction
  transactionsRoot : Bytes
  txnCounter : UInt64
  upgradeState : BlockUpgradeState
  upgradeVote : BlockUpgradeVote
deriving DecidableEq, Inhabited

instance : Model Block where
  name := "Block"
  fields := [
    .always "genesis-hash" Bytes, .always "genesis-id" String, .always "previous-block-hash" Bytes,
    .always "rewards" BlockRewards, .always "round" UInt64, .always "seed" Bytes,
    .always "timestamp" UInt64, .always "transactions" (List Transaction),
    .always "transactions-root" Bytes, .always "txn-counter" UInt64,
    .always "upgrade-state" BlockUpgradeState, .always "upgrade-vote" BlockUpgradeVote]
  toRow r := (
    r.genesisHash, r.genesisId, r.previousBlockHash, r.rewards, r.round, r.seed, r.timestamp,
    r.transactions, r.transactionsRoot, r.txnCounter, r.upgradeState, r.upgradeVote, ())
  ofRow := fun (
      genesisHash, genesisId, previousBlockHash, rewards, round, seed, timestamp, transactions,
      transactionsRoot, txnCounter, upgradeState, upgradeVote, ()) => ⟨
    genesisHash, genesisId, previousBlockHash, rewards, round, seed, timestamp, transactions,
    transactionsRoot, txnCounter, upgradeState, upgradeVote⟩

end LedgerClient

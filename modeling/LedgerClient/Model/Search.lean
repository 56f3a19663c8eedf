import LedgerClient.Model.Account
import LedgerClient.Model.Transaction

/-! Answers of an indexer, one by one or in pages. -/

namespace LedgerClient

/-- Whether an indexer is well. -/
structure HealthCheck where
  data : Option RawJson
  message : String
deriving DecidableEq, Inhabited

instance : Model HealthCheck where
  name := "HealthCheck"
  fields := [.always "data" (Option RawJson), .always "message" String]
  toRow r := (r.data, r.message, ())
  ofRow := fun (data, message, ()) => ⟨data, message⟩

structure AccountResponse where
  account : Account
  currentRound : UInt64
deriving DecidableEq, Inhabited

instance : Model AccountResponse where
  name := "AccountResponse"
  fields := [.always "account" Account, .always "current-round" UInt64]
  toRow r := (r.account, r.currentRound, ())
  ofRow := fun (account, currentRound, ()) => ⟨account, currentRound⟩

structure AccountsResponse where
  accounts : List Account
  currentRound : UInt64
  nextToken : String
deriving DecidableEq, Inhabited

instance : Model AccountsResponse where
  name := "AccountsResponse"
  fields := [
    .always "accounts" (List Account), .always "current-round" UInt64, .always "next-token" String]
  toRow r := (r.accounts, r.currentRound, r.nextToken, ())
  ofRow := fun (accounts, currentRound, nextToken, ()) => ⟨accounts, currentRound, nextToken⟩

structure AssetBalancesResponse where
  balances : List MiniAssetHolding
  currentRound : UInt64
  nextToken : String
deriving DecidableEq, Inhabited

instance : Model AssetBalancesResponse where
  name := "AssetBalancesResponse"
  fields := [
    .always "balances" (List MiniAssetHolding), .always "current-round" UInt64,
    .always "next-token" String]
  toRow r := (r.balances, r.currentRound, r.nextToken, ())
  ofRow := fun (balances, currentRound, nextToken, ()) => ⟨balances, currentRound, nextToken⟩

structure ApplicationResponse where
  application : Application
  currentRound : UInt64
deriving DecidableEq, Inhabited

instance : Model ApplicationResponse where
  name := "ApplicationResponse"
  fields := [.always "application" Application, .always "current-round" UInt64]
  toRow r := (r.application, r.currentRound, ())
  ofRow := fun (application, currentRound, ()) => ⟨application, currentRound⟩

structure ApplicationsResponse where
  applications : List Application
  currentRound : UInt64
  nextToken : String
deriving DecidableEq, Inhabited

instance : Model ApplicationsResponse where
  name := "ApplicationsResponse"
  fields := [
    .always "applications" (List Application), .always "current-round" UInt64,
    .always "next-token" String]
  toRow r := (r.applications, r.currentRound, r.nextToken, ())
  ofRow := fun (applications, currentRound, nextToken, ()) => ⟨applications, currentRound, nextToken⟩

structure AssetResponse where
  asset : Asset
  currentRound : UInt64
deriving DecidableEq, Inhabited

instance : Model AssetResponse where
  name := "AssetResponse"
  fields := [.always "asset" Asset, .always "current-round" UInt64]
  toRow r := (r.asset, r.currentRound, ())
  ofRow := fun (asset, currentRound, ()) => ⟨asset, currentRound⟩

structure AssetsResponse where
  assets : List Asset
  currentRound : UInt64
  nextToken : String
deriving DecidableEq, Inhabited

instance : Model AssetsResponse where
  name := "AssetsResponse"
  fields := [.always "assets" (List Asset), .always "current-round" UInt64, .always "next-token" String]
  toRow r := (r.assets, r.currentRound, r.nextToken, ())
  ofRow := fun (assets, currentRound, nextToken, ()) => ⟨assets, currentRound, nextToken⟩

structure TransactionsResponse where
  currentRound : UInt64
  nextToken : String
  transactions : List Transaction
deriving DecidableEq, Inhabited

instance : Model TransactionsResponse where
  name := "TransactionsResponse"
  fields := [
    .always "current-round" UInt64, .always "next-token" String,
    .always "transactions" (List Transaction)]
  toRow r := (r.currentRound, r.nextToken, r.transactions, ())
  ofRow := fun (currentRound, nextToken, transactions, ()) => ⟨currentRound, nextToken, transactions⟩

end LedgerClient

import LedgerClient.Record.Model

/-! Assets and holdings of them. -/

namespace LedgerClient

/-- What the creator of an asset has laid down. -/
structure AssetParams where
  clawback : String
  creator : String
  decimals : UInt64
  defaultFrozen : Bool
  freeze : String
  manager : String
  metadataHash : Bytes
  name : String
  reserve : String
  total : UInt64
  unitName : String
  url : String
deriving DecidableEq, Inhabited

instance : Model AssetParams where
  name := "AssetParams"
  fields := [
    .always "clawback" String, .always "creator" String, .always "decimals" UInt64,
    .always "default-frozen" Bool, .always "freeze" String, .always "manager" String,
    .always "metadata-hash" Bytes, .always "name" String, .always "reserve" String,
    .always "total" UInt64, .always "unit-name" String, .always "url" String]
  toRow r := (
    r.clawback, r.creator, r.decimals, r.defaultFrozen, r.freeze, r.manager, r.metadataHash, r.name,
    r.reserve, r.total, r.unitName, r.url, ())
  ofRow := fun (
      clawback, creator, decimals, defaultFrozen, freeze, manager, metadataHash, name, reserve, total,
      unitName, url, ()) => ⟨
    clawback, creator, decimals, defaultFrozen, freeze, manager, metadataHash, name, reserve, total,
    unitName, url⟩

structure Asset where
  index : UInt64
  params : AssetParams
deriving DecidableEq, Inhabited

instance : Model Asset where
  name := "Asset"
  fields := [.always "index" UInt64, .always "params" AssetParams]
  toRow r := (r.index, r.params, ())
  ofRow := fun (index, params, ()) => ⟨index, params⟩

structure AssetHolding where
  amount : UInt64
  assetId : UInt64
  creator : String
  isFrozen : Bool
deriving DecidableEq, Inhabited

instance : Model AssetHolding where
  name := "AssetHolding"
  fields := [
    .always "amount" UInt64, .always "asset-id" UInt64, .always "creator" String,
    .always "is-frozen" Bool]
  toRow r := (r.amount, r.assetId, r.creator, r.isFrozen, ())
  ofRow := fun (amount, assetId, creator, isFrozen, ()) => ⟨amount, assetId, creator, isFrozen⟩

/-- A holding listed under its asset. -/
structure MiniAssetHolding where
  address : String
  amount : UInt64
  isFrozen : Bool
deriving DecidableEq, Inhabited

instance : Model MiniAssetHolding where
  name := "MiniAssetHolding"
  fields := [.always "address" String, .always "amount" UInt64, .always "is-frozen" Bool]
  toRow r := (r.address, r.amount, r.isFrozen, ())
  ofRow := fun (address, amount, isFrozen, ()) => ⟨address, amount, isFrozen⟩

end LedgerClient

import LedgerClient.Record.Model

/-! Schemas and values of the state that applications keep, and changes to it. -/

namespace LedgerClient

/-- How many values of either kind an application may keep. -/
structure ApplicationStateSchema where
  numByteSlice : UInt64
  numUint : UInt64
deriving DecidableEq, Inhabited

instance : Model ApplicationStateSchema where
  name := "ApplicationStateSchema"
  fields := [.always "num-byte-slice" UInt64, .always "num-uint" UInt64]
  toRow r := (r.numByteSlice, r.numUint, ())
  ofRow := fun (numByteSlice, numUint, ()) => ⟨numByteSlice, numUint⟩

/-- The same limits as a transaction states them. -/
structure StateSchema where
  numByteSlice : UInt64
  numUint : UInt64
deriving DecidableEq, Inhabited

instance : Model StateSchema where
  name := "StateSchema"
  fields := [.always "num-byte-slice" UInt64, .always "num-uint" UInt64]
  toRow r := (r.numByteSlice, r.numUint, ())
  ofRow := fun (numByteSlice, numUint, ()) => ⟨numByteSlice, numUint⟩

/-- A value by its kind, with both of its forms. -/
structure TealValue where
  bytes : String
  kind : UInt64
  uint : UInt64
deriving DecidableEq, Inhabited

instance : Model TealValue where
  name := "TealValue"
  fields := [.always "bytes" String, .always "type" UInt64, .always "uint" UInt64]
  toRow r := (r.bytes, r.kind, r.uint, ())
  ofRow := fun (bytes, kind, uint, ()) => ⟨bytes, kind, uint⟩

structure TealKeyValue where
  key : String
  value : TealValue
deriving DecidableEq, Inhabited

instance : Model TealKeyValue where
  name := "TealKeyValue"
  fields := [.always "key" String, .always "value" TealValue]
  toRow r := (r.key, r.value, ())
  ofRow := fun (key, value, ()) => ⟨key, value⟩

structure EvalDelta where
  action : UInt64
  bytes : String
  uint : UInt64
deriving DecidableEq, Inhabited

instance : Model EvalDelta where
  name := "EvalDelta"
  fields := [.always "action" UInt64, .always "bytes" String, .always "uint" UInt64]
  toRow r := (r.action, r.bytes, r.uint, ())
  ofRow := fun (action, bytes, uint, ()) => ⟨action, bytes, uint⟩

structure EvalDeltaKeyValue where
  key : String
  value : EvalDelta
deriving DecidableEq, Inhabited

instance : Model EvalDeltaKeyValue where
  name := "EvalDeltaKeyValue"
  fields := [.always "key" String, .always "value" EvalDelta]
  toRow r := (r.key, r.value, ())
  ofRow := fun (key, value, ()) => ⟨key, value⟩

/-- The changes in the local state of an account. -/
structure AccountStateDelta where
  address : String
  delta : List EvalDeltaKeyValue
deriving DecidableEq, Inhabited

instance : Model AccountStateDelta where
  name := "AccountStateDelta"
  fields := [.always "address" String, .always "delta" (List EvalDeltaKeyValue)]
  toRow r := (r.address, r.delta, ())
  ofRow := fun (address, delta, ()) => ⟨address, delta⟩

end LedgerClient

import LedgerClient.Model.State

/-! Applications and the state that accounts keep for them. -/

namespace LedgerClient

/-- Programs, owner and state of an application. -/
structure ApplicationParams where
  approvalProgram : Bytes
  clearStateProgram : Bytes
  creator : String
  globalState : List TealKeyValue
  globalStateSchema : ApplicationStateSchema
  localStateSchema : ApplicationStateSchema
deriving DecidableEq, Inhabited

instance : Model ApplicationParams where
  name := "ApplicationParams"
  fields := [
    .always "approval-program" Bytes, .always "clear-state-program" Bytes, .always "creator" String,
    .always "global-state" (List TealKeyValue), .always "global-state-schema" ApplicationStateSchema,
    .always "local-state-schema" ApplicationStateSchema]
  toRow r := (
    r.approvalProgram, r.clearStateProgram, r.creator, r.globalState, r.globalStateSchema,
    r.localStateSchema, ())
  ofRow := fun (
      approvalProgram, clearStateProgram, creator, globalState, globalStateSchema, localStateSchema, ()) => ⟨
    approvalProgram, clearStateProgram, creator, globalState, globalStateSchema, localStateSchema⟩

structure Application where
  id : UInt64
  params : ApplicationParams
deriving DecidableEq, Inhabited

instance : Model Application where
  name := "Application"
  fields := [.always "id" UInt64, .always "params" ApplicationParams]
  toRow r := (r.id, r.params, ())
  ofRow := fun (id, params, ()) => ⟨id, params⟩

structure ApplicationLocalState where
  id : UInt64
  keyValue : List TealKeyValue
  schema : ApplicationStateSchema
deriving DecidableEq, Inhabited

instance : Model ApplicationLocalState where
  name := "ApplicationLocalState"
  fields := [
    .always "id" UInt64, .always "key-value" (List TealKeyValue),
    .always "schema" ApplicationStateSchema]
  toRow r := (r.id, r.keyValue, r.schema, ())
  ofRow := fun (id, keyValue, schema, ()) => ⟨id, keyValue, schema⟩

end LedgerClient

import LedgerClient.Model.Account

/-! Trial runs of programs. -/

namespace LedgerClient

structure DryrunSource where
  appIndex : UInt64
  fieldName : String
  source : String
  txnIndex : UInt64
deriving DecidableEq, Inhabited

instance : Model DryrunSource where
  name := "DryrunSource"
  fields := [
    .always "app-index" UInt64, .always "field-name" String, .always "source" String,
    .always "txn-index" UInt64]
  toRow r := (r.appIndex, r.fieldName, r.source, r.txnIndex, ())
  ofRow := fun (appIndex, fieldName, source, txnIndex, ()) => ⟨appIndex, fieldName, source, txnIndex⟩

/-- Everything a trial needs. -/
structure DryrunRequest where
  accounts : List Account
  apps : List Application
  latestTimestamp : Option UInt64
  protocolVersion : Option String
  round : Option UInt64
  sources : List DryrunSource
  txns : List RawJson
deriving DecidableEq, Inhabited

instance : Model DryrunRequest where
  name := "DryrunRequest"
  fields := [
    .always "accounts" (List Account), .always "apps" (List Application),
    .whenSome "latest-timestamp" UInt64, .whenSome "protocol-version" String, .whenSome "round" UInt64,
    .always "sources" (List DryrunSource), .always "txns" (List RawJson)]
  toRow r := (r.accounts, r.apps, r.latestTimestamp, r.protocolVersion, r.round, r.sources, r.txns, ())
  ofRow := fun (
      accounts, apps, latestTimestamp, protocolVersion, round, sources, txns, ()) => ⟨
    accounts, apps, latestTimestamp, protocolVersion, round, sources, txns⟩

structure DryrunState where
  error : String
  line : UInt64
  pc : UInt64
  scratch : List TealValue
  stack : List TealValue
deriving DecidableEq, Inhabited

instance : Model DryrunState where
  name := "DryrunState"
  fields := [
    .always "error" String, .always "line" UInt64, .always "pc" UInt64,
    .always "scratch" (List TealValue), .always "stack" (List TealValue)]
  toRow r := (r.error, r.line, r.pc, r.scratch, r.stack, ())
  ofRow := fun (error, line, pc, scratch, stack, ()) => ⟨error, line, pc, scratch, stack⟩

/-- What a transaction did in a trial. -/
structure DryrunTxnResult where
  appCallMessages : List String
  appCallTrace : List DryrunState
  disassembly : List String
  globalDelta : List EvalDeltaKeyValue
  localDeltas : List AccountStateDelta
  logicSigMessages : List String
  logicSigTrace : List DryrunState
deriving DecidableEq, Inhabited

instance : Model DryrunTxnResult where
  name := "DryrunTxnResult"
  fields := [
    .always "app-call-messages" (List String), .always "app-call-trace" (List DryrunState),
    .always "disassembly" (List String), .always "global-delta" (List EvalDeltaKeyValue),
    .always "local-deltas" (List AccountStateDelta), .always "logic-sig-messages" (List String),
    .always "logic-sig-trace" (List DryrunState)]
  toRow r := (
    r.appCallMessages, r.appCallTrace, r.disassembly, r.globalDelta, r.localDeltas, r.logicSigMessages,
    r.logicSigTrace, ())
  ofRow := fun (
      appCallMessages, appCallTrace, disassembly, globalDelta, localDeltas, logicSigMessages,
      logicSigTrace, ()) => ⟨
    appCallMessages, appCallTrace, disassembly, globalDelta, localDeltas, logicSigMessages,
    logicSigTrace⟩

structure DryrunResponse where
  error : String
  protocolVersion : String
  txns : List DryrunTxnResult
deriving DecidableEq, Inhabited

instance : Model DryrunResponse where
  name := "DryrunResponse"
  fields := [
    .always "error" String, .always "protocol-version" String, .always "txns" (List DryrunTxnResult)]
  toRow r := (r.error, r.protocolVersion, r.txns, ())
  ofRow := fun (error, protocolVersion, txns, ()) => ⟨error, protocolVersion, txns⟩

end LedgerClient

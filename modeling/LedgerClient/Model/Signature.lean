import LedgerClient.Record.Model

/-! The three ways to sign a transaction. -/

namespace LedgerClient

structure TransactionSignatureMultisigSubsignature where
  publicKey : Bytes
  signature : Bytes
deriving DecidableEq, Inhabited

instance : Model TransactionSignatureMultisigSubsignature where
  name := "TransactionSignatureMultisigSubsignature"
  fields := [.always "public-key" Bytes, .always "signature" Bytes]
  toRow r := (r.publicKey, r.signature, ())
  ofRow := fun (publicKey, signature, ()) => ⟨publicKey, signature⟩

/-- Several signatures with the number needed. -/
structure TransactionSignatureMultisig where
  subsignature : List TransactionSignatureMultisigSubsignature
  threshold : UInt64
  version : UInt64
deriving DecidableEq, Inhabited

instance : Model TransactionSignatureMultisig where
  name := "TransactionSignatureMultisig"
  fields := [
    .always "subsignature" (List TransactionSignatureMultisigSubsignature), .always "threshold" UInt64,
    .always "version" UInt64]
  toRow r := (r.subsignature, r.threshold, r.version, ())
  ofRow := fun (subsignature, threshold, version, ()) => ⟨subsignature, threshold, version⟩

structure TransactionSignatureLogicsig where
  args : List Bytes
  logic : Bytes
  multisigSignature : Option TransactionSignatureMultisig
  signature : Bytes
deriving DecidableEq, Inhabited

instance : Model TransactionSignatureLogicsig where
  name := "TransactionSignatureLogicsig"
  fields := [
    .always "args" (List Bytes), .always "logic" Bytes,
    .whenSome "multisig-signature" TransactionSignatureMultisig, .always "signature" Bytes]
  toRow r := (r.args, r.logic, r.multisigSignature, r.signature, ())
  ofRow := fun (
      args, logic, multisigSignature, signature, ()) => ⟨
    args, logic, multisigSignature, signature⟩

/-- A signature of one kind. -/
structure TransactionSignature where
  logicsig : Option TransactionSignatureLogicsig
  multisig : Option TransactionSignatureMultisig
  sig : Bytes
deriving DecidableEq, Inhabited

instance : Model TransactionSignature where
  name := "TransactionSignature"
  fields := [
    .whenSome "logicsig" TransactionSignatureLogicsig,
    .whenSome "multisig" TransactionSignatureMultisig, .always "sig" Bytes]
  toRow r := (r.logicsig, r.multisig, r.sig, ())
  ofRow := fun (logicsig, multisig, sig, ()) => ⟨logicsig, multisig, sig⟩

end LedgerClient

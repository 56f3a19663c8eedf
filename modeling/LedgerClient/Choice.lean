import LedgerClient.Record.Codec

/-! Types with a few named values, such as the kinds of transactions. -/

namespace LedgerClient

class Choice (α : Type) where
  all : List α
  /-- How a value is written in requests and in JSON. -/
  word : α → String
  /-- How a value is shown to developers. -/
  label : α → String

namespace Choice
open Json Json.Reader

def ofWord? [Choice α] (text : String) : Option α :=
  all.find? fun choice => word choice = text

/-- What is said of a word that is none of the values. -/
def unknownWord : String := "Matching variant not found"

def ofWord [Choice α] (text : String) : Except Misfit α :=
  match ofWord? text with
  | some choice => .ok choice
  | none => .error (.choice text ((all : List α).map word))

def readWord [Choice α] : Reader α :=
  Codec.read? "variant identifier" (· = '"') do
    skipOne
    Codec.lift (ofWord (← string))

def readNothing : Reader Unit :=
  Codec.read? "unit" (· = 'n') do
    skipOne
    Reader.word ['u', 'l', 'l']

/-- A choice stands in JSON as its word, or as an object that has the word as
its only key and nothing under it. -/
def read [Choice α] (depth : Nat) : Reader α := do
  match ← ahead with
  | none => failAhead .valueEnds
  | some '"' => readWord
  | some '\x7b' => Codec.nested depth fun _ => do
    skipOne
    let choice ← readWord
    colon
    readNothing
    match ← ahead with
    | none => failHere .objectEnds
    | some '\x7d' => skipOne
    | some _ => failHere .noValue
    return choice
  | some _ => failAhead .noValue

def decode [Choice α] (octets : List UInt8) : Except Json.Error α :=
  (read depthLimit).run octets

end Choice

inductive TxType
  | pay | keyreg | acfg | axfer | afrz | appl
deriving DecidableEq, Repr

instance : Choice TxType where
  all := [.pay, .keyreg, .acfg, .axfer, .afrz, .appl]
  word
    | .pay => "pay"
    | .keyreg => "keyreg"
    | .acfg => "acfg"
    | .axfer => "axfer"
    | .afrz => "afrz"
    | .appl => "appl"
  label
    | .pay => "Pay"
    | .keyreg => "Keyreg"
    | .acfg => "Acfg"
    | .axfer => "Axfer"
    | .afrz => "Afrz"
    | .appl => "Appl"

inductive SigType
  | sig | msig | lsig
deriving DecidableEq, Repr

instance : Choice SigType where
  all := [.sig, .msig, .lsig]
  word
    | .sig => "sig"
    | .msig => "msig"
    | .lsig => "lsig"
  label
    | .sig => "Sig"
    | .msig => "Msig"
    | .lsig => "Lsig"

inductive AddressRole
  | sender | receiver | freezeTarget
deriving DecidableEq, Repr

instance : Choice AddressRole where
  all := [.sender, .receiver, .freezeTarget]
  word
    | .sender => "sender"
    | .receiver => "receiver"
    | .freezeTarget => "freeze-target"
  label
    | .sender => "Sender"
    | .receiver => "Receiver"
    | .freezeTarget => "FreezeTarget"

end LedgerClient

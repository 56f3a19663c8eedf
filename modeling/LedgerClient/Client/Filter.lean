import LedgerClient.Choice
import LedgerClient.Octets.Base64
import LedgerClient.Query
import LedgerClient.Time.Instant

/-! Filters that narrow down what a call returns. Each filter has a key, a type
of values and a text for them. -/

namespace LedgerClient

/-- An instant with the offset from UTC, in seconds, at which it is shown. -/
structure Moment where
  instant : Instant
  offset : Int
deriving DecidableEq, Repr

inductive Filter
  | address | addressRole | afterTime | applicationId | assetId | authAddr | beforeTime | creator
  | currencyGreaterThan | currencyLessThan | excludeCloseTo | limit | max | maxRound | minRound | name
  | next | notePrefix | rekeyTo | round | sigType | txType | txId | unit
deriving DecidableEq, Repr

namespace Filter

def all : List Filter := [
  address, addressRole, afterTime, applicationId, assetId, authAddr, beforeTime, creator,
  currencyGreaterThan, currencyLessThan, excludeCloseTo, limit, max, maxRound, minRound, name,
  next, notePrefix, rekeyTo, round, sigType, txType, txId, unit]

def key : Filter → String
  | address => "address"
  | addressRole => "address-role"
  | afterTime => "after-time"
  | applicationId => "application-id"
  | assetId => "asset-id"
  | authAddr => "auth-addr"
  | beforeTime => "before-time"
  | creator => "creator"
  | currencyGreaterThan => "currency-greater-than"
  | currencyLessThan => "currency-less-than"
  | excludeCloseTo => "exclude-close-to"
  | limit => "limit"
  | max => "max"
  | maxRound => "max-round"
  | minRound => "min-round"
  | name => "name"
  | next => "next"
  | notePrefix => "note-prefix"
  | rekeyTo => "rekey-to"
  | round => "round"
  | sigType => "sig-type"
  | txType => "tx-type"
  | txId => "txid"
  | unit => "unit"

/-- The forms that values of filters have. -/
inductive Form
  | number | flag | text | octets | moment | addressRole | sigType | txType
deriving DecidableEq, Repr

def Form.Value : Form → Type
  | number => UInt64
  | flag => Bool
  | text => String
  | octets => List UInt8
  | moment => Moment
  | addressRole => AddressRole
  | sigType => SigType
  | txType => TxType

def flagText (flag : Bool) : String := if flag then "true" else "false"

/-- The text of a value: decimal numbers, words for choices, and base64 for octets. -/
def Form.print : (form : Form) → form.Value → String
  | number, value => toString (UInt64.toNat value)
  | flag, value => flagText value
  | text, value => value
  | octets, value => String.ofList (Base64.encode value)
  | moment, value => Instant.text (Moment.instant value) (Moment.offset value)
  | addressRole, value => (Choice.word : AddressRole → String) value
  | sigType, value => (Choice.word : SigType → String) value
  | txType, value => (Choice.word : TxType → String) value

def form : Filter → Form
  | applicationId | assetId | currencyGreaterThan | currencyLessThan | limit | max | maxRound | minRound
  | round => .number
  | excludeCloseTo | rekeyTo => .flag
  | address | authAddr | creator | name | next | txId | unit => .text
  | notePrefix => .octets
  | afterTime | beforeTime => .moment
  | addressRole => .addressRole
  | sigType => .sigType
  | txType => .txType

abbrev Value (filter : Filter) : Type := filter.form.Value

def print (filter : Filter) (value : filter.Value) : String := filter.form.print value

end Filter
end LedgerClient

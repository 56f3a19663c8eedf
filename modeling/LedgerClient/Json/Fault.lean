import LedgerClient.Json.Printer
import LedgerClient.Text.Quoted

/-! What can be wrong with a JSON text, and where. Faults of the text always have
a place; faults of the contents get the place of the value they were found in,
and have none when a value was not read from a text. -/

namespace LedgerClient.Json

/-- What a value shows of itself in a message. -/
inductive Kind
  | null
  | bool (value : Bool)
  | integer (value : Integer)
  | float (value : Binary64)
  | string (value : String)
  | sequence
  | map

def kind : Json → Kind
  | .null => .null
  | .bool b => .bool b
  | .integer n => .integer n
  | .float x => .float x
  | .string s => .string s
  | .array _ => .sequence
  | .object _ => .map

def Kind.message : Kind → String
  | null => "null"
  | bool true => "boolean `true`"
  | bool false => "boolean `false`"
  | integer n => "integer `" ++ String.ofList (integerText n.val) ++ "`"
  | float x => "floating point `" ++ String.ofList (floatText x) ++ "`"
  | string s => "string " ++ Text.quoted s
  | sequence => "sequence"
  | map => "map"

/-- The ways in which contents do not fit what is read from them. -/
inductive Misfit
  | kind (found : Kind) (expected : String)
  | value (found : Kind) (expected : String)
  | length (found : Nat) (expected : String)
  | duplicate (field : String)
  | missing (field : String)
  | choice (found : String) (choices : List String)
  | unreadable (reason : String)

def Misfit.message : Misfit → String
  | kind found expected => "invalid type: " ++ found.message ++ ", expected " ++ expected
  | value found expected => "invalid value: " ++ found.message ++ ", expected " ++ expected
  | length found expected => "invalid length " ++ toString found ++ ", expected " ++ expected
  | duplicate field => "duplicate field `" ++ field ++ "`"
  | missing field => "missing field `" ++ field ++ "`"
  | choice found choices =>
    "unknown variant `" ++ found ++ "`, expected one of " ++
      ", ".intercalate (choices.map fun choice => "`" ++ choice ++ "`")
  | unreadable reason => reason

inductive Cause
  | listEnds
  | objectEnds
  | stringEnds
  | valueEnds
  | noColon
  | noListComma
  | noObjectComma
  | badWord
  | noValue
  | badEscape
  | badNumber
  | numberTooLarge
  | notUtf8
  | control
  | keyNotString
  | loneSurrogate
  | halfSurrogate
  | trailingComma
  | trailing
  | tooDeep
  | misfit (misfit : Misfit)

def Cause.message : Cause → String
  | listEnds => "EOF while parsing a list"
  | objectEnds => "EOF while parsing an object"
  | stringEnds => "EOF while parsing a string"
  | valueEnds => "EOF while parsing a value"
  | noColon => "expected `:`"
  | noListComma => "expected `,` or `]`"
  | noObjectComma => "expected `,` or `\x7d`"
  | badWord => "expected ident"
  | noValue => "expected value"
  | badEscape => "invalid escape"
  | badNumber => "invalid number"
  | numberTooLarge => "number out of range"
  | notUtf8 => "invalid unicode code point"
  | control => "control character (\\u0000-\\u001F) found while parsing a string"
  | keyNotString => "key must be a string"
  | loneSurrogate => "lone leading surrogate in hex escape"
  | halfSurrogate => "unexpected end of hex escape"
  | trailingComma => "trailing comma"
  | trailing => "trailing characters"
  | tooDeep => "recursion limit exceeded"
  | misfit m => m.message

/-- A place is known by the number of octets behind it. -/
structure Fault where
  cause : Cause
  left : Option Nat

/-- Gives a fault a place unless it has one. -/
def Fault.place (fault : Fault) (left : Nat) : Fault :=
  { fault with left := some (fault.left.getD left) }

/-- Lines count from one; the column is the number of octets since the line began. -/
structure Place where
  line : Nat
  column : Nat
deriving DecidableEq, Repr

/-- The place behind the given octets. -/
def Place.behind (octets : List UInt8) : Place :=
  octets.foldl (fun place octet => if octet = 10 then ⟨place.line + 1, 0⟩ else ⟨place.line, place.column + 1⟩) ⟨1, 0⟩

/-- Why a text or a value could not be read. -/
structure Error where
  cause : Cause
  place : Option Place

def Error.message (error : Error) : String :=
  match error.place with
  | some place =>
    error.cause.message ++ " at line " ++ toString place.line ++ " column " ++ toString place.column
  | none => error.cause.message

def Fault.within (fault : Fault) (octets : List UInt8) : Error :=
  ⟨fault.cause, fault.left.map fun left => .behind (octets.take (octets.length - left))⟩

end LedgerClient.Json

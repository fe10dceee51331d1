import BuildBrowser.Json.Number
import BuildBrowser.Text.Quoted
import BuildBrowser.Text.Utf8

/-!
# Faults — why a document cannot be read, and where

A reader works on the bytes that are left, so a `Fault` names its place by the number of bytes after
it. `Error` is the fault as a user sees it: `locate` turns that number into a line, counted by line
feeds, and a column, counted in bytes.
-/

namespace BuildBrowser.Json

/-- The kind of value that a document holds. -/
inductive Found where
  | null
  | bool (b : Bool)
  | integer (n : Int)
  | binary64 (bits : UInt64)
  | string (s : String)
  | sequence
  | map
  deriving DecidableEq, Repr

/-- The kind of value that a reader wants. -/
inductive Wanted where
  | string
  | unsigned
  | sequence
  | map
  | record (name : String)
  deriving DecidableEq, Repr

/-- Why a document cannot be read. -/
inductive Cause where
  | endInValue
  | endInList
  | endInObject
  | endInString
  | expectedValue
  | expectedIdent
  | expectedColon
  | expectedCommaOrBracket
  | expectedCommaOrBrace
  | keyNotString
  | trailingComma
  | trailingCharacters
  | invalidNumber
  | numberOutOfRange
  | invalidEscape
  | unpairedEscape
  | loneSurrogate
  | controlCharacter
  | invalidUnicode
  | tooDeep
  | wrongType (found : Found) (wanted : Wanted)
  | wrongValue (n : Int) (wanted : Wanted)
  | duplicateField (name : String)
  | missingField (name : String)
  | wrongLength (length : Nat) (record : String) (fields : Nat)
  deriving DecidableEq, Repr

/-- A cause and the number of bytes after its place. -/
structure Fault where
  cause : Cause
  left : Nat
  deriving DecidableEq, Repr

/-- A fault whose place is right before the bytes left. -/
def Fault.here (cause : Cause) (rest : Bytes) : Fault :=
  ⟨cause, rest.length⟩

/-- A fault whose place is after the next byte, or at the end of the input if none is left. -/
def Fault.ahead (cause : Cause) (rest : Bytes) : Fault :=
  ⟨cause, rest.length - 1⟩

/-- A fault with the line and the column of its place. -/
structure Error where
  cause : Cause
  line : Nat
  column : Nat
  deriving DecidableEq, Repr

/-- A fault in an input, with the line and the column of its place. -/
def Fault.locate (input : Bytes) (fault : Fault) : Error :=
  let before := input.take (input.length - fault.left)
  { cause := fault.cause
    line := before.count 0x0A + 1
    column := (before.reverse.takeWhile (· ≠ 0x0A)).length }

/-- The words for what a document holds. -/
def Found.message : Found → String
  | .null => "null"
  | .bool true => "boolean `true`"
  | .bool false => "boolean `false`"
  | .integer n => "integer `" ++ String.ofList (numeral n) ++ "`"
  | .binary64 bits => "floating point `" ++ String.ofList (floatText bits) ++ "`"
  | .string s => "string " ++ Text.quoted s
  | .sequence => "sequence"
  | .map => "map"

/-- The words for what a reader wants. -/
def Wanted.message : Wanted → String
  | .string => "a string"
  | .unsigned => "u64"
  | .sequence => "a sequence"
  | .map => "a map"
  | .record name => "struct " ++ name

/-- The words for a cause. -/
def Cause.message : Cause → String
  | .endInValue => "EOF while parsing a value"
  | .endInList => "EOF while parsing a list"
  | .endInObject => "EOF while parsing an object"
  | .endInString => "EOF while parsing a string"
  | .expectedValue => "expected value"
  | .expectedIdent => "expected ident"
  | .expectedColon => "expected `:`"
  | .expectedCommaOrBracket => "expected `,` or `]`"
  | .expectedCommaOrBrace => "expected `,` or `\x7d`"
  | .keyNotString => "key must be a string"
  | .trailingComma => "trailing comma"
  | .trailingCharacters => "trailing characters"
  | .invalidNumber => "invalid number"
  | .numberOutOfRange => "number out of range"
  | .invalidEscape => "invalid escape"
  | .unpairedEscape => "unexpected end of hex escape"
  | .loneSurrogate => "lone leading surrogate in hex escape"
  | .controlCharacter => "control character (\\u0000-\\u001F) found while parsing a string"
  | .invalidUnicode => "invalid unicode code point"
  | .tooDeep => "recursion limit exceeded"
  | .wrongType found wanted =>
    "invalid type: " ++ found.message ++ ", expected " ++ wanted.message
  | .wrongValue n wanted =>
    "invalid value: integer `" ++ String.ofList (numeral n) ++ "`, expected " ++ wanted.message
  | .duplicateField name => "duplicate field `" ++ name ++ "`"
  | .missingField name => "missing field `" ++ name ++ "`"
  | .wrongLength length record fields =>
    "invalid length " ++ String.ofList (numeral length) ++ ", expected struct " ++ record ++
      " with " ++ String.ofList (numeral fields) ++ (if fields = 1 then " element" else " elements")

/-- The words for an error: its cause and its place. -/
def Error.message (e : Error) : String :=
  e.cause.message ++ " at line " ++ String.ofList (numeral e.line) ++ " column " ++
    String.ofList (numeral e.column)

end BuildBrowser.Json

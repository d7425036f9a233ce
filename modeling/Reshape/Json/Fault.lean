import Reshape.Number.Numeral
import Reshape.Text.Symbol

/-!
# Why a text is not read

A `Fault` is what is wrong at one place of a malformed text. A `ReadError` is a fault with
the text from there on, or one of the two limits that a well-formed text can exceed.
`DecodeError` is the same seen from the whole text, with the place in it.
-/

namespace Reshape

/-- A place in a text. Only the line feed ends a line, every symbol is one column wide, and both are
counted from one. -/
structure Place where
  line : Nat
  column : Nat
  deriving DecidableEq, Repr

namespace Place

/-- The place that comes after the text `before`. -/
def after (before : Text) : Place where
  line := before.count (.char '\n') + 1
  column := (before.reverse.takeWhile (· != .char '\n')).length + 1

/-- The place where `rest`, the end of `text`, starts. -/
def ofRest (text rest : Text) : Place :=
  after (text.take (text.length - rest.length))

def text (p : Place) : String :=
  s!"line {p.line}, column {p.column}"

end Place

end Reshape

namespace Reshape.Json

inductive Fault where
  | expectingValue
  | expectingName
  | expectingColon
  | expectingComma
  | unterminatedString
  | controlCharacter
  | invalidEscape
  | invalidUnicodeEscape
  | extraData
  | byteOrderMark
  deriving DecidableEq, Repr

def Fault.message : Fault → String
  | expectingValue => "Expecting value"
  | expectingName => "Expecting property name enclosed in double quotes"
  | expectingColon => "Expecting ':' delimiter"
  | expectingComma => "Expecting ',' delimiter"
  | unterminatedString => "Unterminated string starting at"
  | controlCharacter => "Invalid control character at"
  | invalidEscape => "Invalid \\escape"
  | invalidUnicodeEscape => "Invalid \\uXXXX escape"
  | extraData => "Extra data"
  | byteOrderMark => "Unexpected UTF-8 BOM (decode using utf-8-sig)"

inductive Container where
  | array
  | object
  deriving DecidableEq, Repr

def Container.label : Container → String
  | array => "a JSON array"
  | object => "a JSON object"

inductive ReadError where
  /-- `rest` is the text from the fault on. -/
  | malformed (fault : Fault) (rest : Text)
  | tooManyDigits (limit : TooManyDigits)
  | tooDeep (container : Container)
  deriving DecidableEq, Repr

/-- A reader takes a value off the front of a text and returns the rest. -/
abbrev Reader (α : Type) := Text → Except ReadError (α × Text)

inductive DecodeError where
  | malformed (fault : Fault) (place : Place)
  | tooManyDigits (limit : TooManyDigits)
  | tooDeep (container : Container)
  deriving DecidableEq, Repr

def ReadError.inText (text : Text) : ReadError → DecodeError
  | malformed fault rest => .malformed fault (Place.ofRest text rest)
  | tooManyDigits limit => .tooManyDigits limit
  | tooDeep container => .tooDeep container

end Reshape.Json

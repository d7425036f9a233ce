import Reshape.Json.Fault
import Reshape.Number.Double
import Reshape.Value

/-!
# Numbers in documents

A number is a sign, a whole part without superfluous zeros, and perhaps a fraction and an
exponent; it ends where this grammar ends. With neither fraction nor exponent it is an
integer of any size, otherwise the nearest double.
-/

namespace Reshape.Json

structure NumberToken where
  negative : Bool
  whole : List Char
  fraction : List Char
  exponent : Option Int
  deriving DecidableEq, Repr

namespace NumberToken

def takeSign : Text → Bool × Text
  | .char '-' :: rest => (true, rest)
  | t => (false, t)

/-- The digits at the front. -/
def takeDigits : Text → List Char × Text
  | .char c :: rest =>
    if c.isDigit then
      let (digits, after) := takeDigits rest
      (c :: digits, after)
    else ([], .char c :: rest)
  | t => ([], t)

/-- A lone zero, or digits that do not start with one. -/
def takeWhole (t : Text) : Option (List Char × Text) :=
  match takeDigits t with
  | ([], _) => none
  | (c :: digits, after) => if c = '0' then some ([c], t.tail) else some (c :: digits, after)

/-- The digits after a point. A point without digits is not taken. -/
def takeFraction : Text → List Char × Text
  | .char '.' :: rest =>
    match takeDigits rest with
    | ([], _) => ([], .char '.' :: rest)
    | taken => taken
  | t => ([], t)

def takeExponentSign : Text → Bool × Text
  | .char '-' :: rest => (true, rest)
  | .char '+' :: rest => (false, rest)
  | t => (false, t)

/-- The exponent after `e` or `E`. A letter without digits is not taken. -/
def takeExponent : Text → Option Int × Text
  | .char c :: rest =>
    let (negative, signless) := takeExponentSign rest
    let (digits, after) := takeDigits signless
    if (c = 'e' ∨ c = 'E') ∧ digits ≠ [] then
      let n : Int := Nat.ofDigitChars 10 digits 0
      (some (if negative then -n else n), after)
    else (none, .char c :: rest)
  | t => (none, t)

def take? (t : Text) : Option (NumberToken × Text) := do
  let (negative, t) := takeSign t
  let (whole, t) ← takeWhole t
  let (fraction, t) := takeFraction t
  let (exponent, t) := takeExponent t
  return ({ negative, whole, fraction, exponent }, t)

def value (t : NumberToken) : Except TooManyDigits Value :=
  if t.fraction = [] ∧ t.exponent = none then do
    let n ← Numeral.read t.whole
    return .int (if t.negative then -n else n)
  else
    let digits := Nat.ofDigitChars 10 (t.whole ++ t.fraction) 0
    return .double (.ofDecimal t.negative digits (t.exponent.getD 0 - t.fraction.length))

end NumberToken

def readNumber (t : Text) : Except ReadError (Value × Text) :=
  match NumberToken.take? t with
  | none => .error (.malformed .expectingValue t)
  | some (token, rest) =>
    match token.value with
    | .ok v => .ok (v, rest)
    | .error limit => .error (.tooManyDigits limit)

end Reshape.Json

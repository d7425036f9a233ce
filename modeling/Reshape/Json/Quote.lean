import Reshape.Json.Fault

/-!
# Quoted strings in documents

A string stands between double quotes. It is read as a list of units: an escape `\uXXXX` is a
unit of 16 bits, and everything else stands for itself. `joinUnits` then makes one character of
two escapes next to each other that are the halves of a surrogate pair. A half without its
partner stays a half.
-/

namespace Reshape.Json

/-- The character that a letter after the backslash stands for. -/
def simpleEscape? : Char → Option Char
  | '"' => some '"'
  | '\\' => some '\\'
  | '/' => some '/'
  | 'b' => some '\x08'
  | 'f' => some '\x0c'
  | 'n' => some '\n'
  | 'r' => some '\r'
  | 't' => some '\t'
  | _ => none

def hexValue? (c : Char) : Option Nat :=
  if '0' ≤ c ∧ c ≤ '9' then some (c.toNat - 48)
  else if 'a' ≤ c ∧ c ≤ 'f' then some (c.toNat - 87)
  else if 'A' ≤ c ∧ c ≤ 'F' then some (c.toNat - 55)
  else none

/-- The number that four hexadecimal digits stand for. -/
def hexUnit? (digits : Text) : Option Nat := do
  let values ← digits.mapM fun s => s.char?.bind hexValue?
  return values.foldl (16 * · + ·) 0

/-- What a quoted string is made of. -/
inductive StringUnit where
  | symbol (s : Symbol)
  | escape (unit : Nat)
  deriving DecidableEq, Repr

def isHighHalf (unit : Nat) : Bool :=
  0xD800 ≤ unit && unit < 0xDC00

def isLowHalf (unit : Nat) : Bool :=
  0xDC00 ≤ unit && unit < 0xE000

def joinHalves (high low : Nat) : Char :=
  Char.ofNat (0x10000 + (high - 0xD800) * 0x400 + (low - 0xDC00))

def joinUnits : List StringUnit → Text
  | [] => []
  | .escape high :: .escape low :: rest =>
    if isHighHalf high && isLowHalf low then .char (joinHalves high low) :: joinUnits rest
    else .ofCode high :: joinUnits (.escape low :: rest)
  | .escape unit :: rest => .ofCode unit :: joinUnits rest
  | .symbol s :: rest => s :: joinUnits rest

/-- The units up to the closing quote. `opening` is the text from the opening quote on. -/
def units (opening : Text) : Reader (List StringUnit)
  | [] => .error (.malformed .unterminatedString opening)
  | .char '"' :: rest => .ok ([], rest)
  | [.char '\\'] => .error (.malformed .unterminatedString opening)
  | .char '\\' :: .char 'u' :: a :: b :: c :: d :: e :: rest =>
    match hexUnit? [a, b, c, d] with
    | some unit => do
      let (more, rest) ← units opening (e :: rest)
      return (.escape unit :: more, rest)
    | none =>
      .error (.malformed .invalidUnicodeEscape (.char 'u' :: a :: b :: c :: d :: e :: rest))
  | .char '\\' :: .char 'u' :: rest =>
    .error (.malformed .invalidUnicodeEscape (.char 'u' :: rest))
  | .char '\\' :: s :: rest =>
    match s.char?.bind simpleEscape? with
    | some escaped => do
      let (more, rest) ← units opening rest
      return (.symbol (.char escaped) :: more, rest)
    | none => .error (.malformed .invalidEscape (.char '\\' :: s :: rest))
  | s :: rest =>
    if s.code < 0x20 then .error (.malformed .controlCharacter (s :: rest))
    else do
      let (more, rest) ← units opening rest
      return (.symbol s :: more, rest)

/-- A string, from after its opening quote. -/
def readQuoted (t : Text) : Except ReadError (Text × Text) := do
  let (us, rest) ← units (.char '"' :: t) t
  return (joinUnits us, rest)

end Reshape.Json

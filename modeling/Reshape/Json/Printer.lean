import Reshape.Json.Depth
import Reshape.Json.Layout
import Reshape.Number.Numeral
import Reshape.Number.Shortest
import Reshape.Text.Quoted

/-!
# Writing documents

`print` writes a value in a layout. Only the double quote, the backslash and the control
characters below the space are escaped. `line` writes on one line what does not nest too deep.
-/

namespace Reshape.Json

def documentDoubles : DoubleStyle where
  nan := "NaN"
  infinity := "Infinity"

def escapeChar (c : Char) : List Char :=
  if c = '"' ∨ c = '\\' then ['\\', c]
  else if c = '\n' then ['\\', 'n']
  else if c = '\r' then ['\\', 'r']
  else if c = '\t' then ['\\', 't']
  else if c = '\x08' then ['\\', 'b']
  else if c = '\x0c' then ['\\', 'f']
  else if c.toNat < 0x20 then '\\' :: 'u' :: Quoted.hex 4 c.toNat
  else [c]

def escapeSymbol : Symbol → Text
  | .char c => Text.ofChars (escapeChar c)
  | .half offset => [.half offset]

def printString (s : Text) : Text :=
  .char '"' :: s.flatMap escapeSymbol ++ [.char '"']

def printInt : Int → List Char
  | .ofNat n => Nat.toDigits 10 n
  | .negSucc n => '-' :: Nat.toDigits 10 (n + 1)

/-- What stands between a name and its value. -/
def colon : Text := [.char ':', .char ' ']

mutual

/-- A value inside `depth` containers. -/
def printAt (layout : Layout) (depth : Nat) : Value → Text
  | .null => "null"
  | .bool true => "true"
  | .bool false => "false"
  | .int n => Text.ofChars (printInt n)
  | .double x => Text.ofChars (documentDoubles.write x)
  | .str s => printString s
  | .list [] => [.char '[', .char ']']
  | .list (x :: xs) =>
    .char '[' :: layout.margin (depth + 1) ++ printAt layout (depth + 1) x ++
      printElements layout (depth + 1) xs ++ layout.margin depth ++ [.char ']']
  | .obj [] => [.char '\x7b', .char '\x7d']
  | .obj ((k, v) :: ms) =>
    .char '\x7b' :: layout.margin (depth + 1) ++ printString k ++ colon ++
      printAt layout (depth + 1) v ++ printMembers layout (depth + 1) ms ++
      layout.margin depth ++ [.char '\x7d']

/-- The elements after the first. -/
def printElements (layout : Layout) (depth : Nat) : List Value → Text
  | [] => []
  | x :: xs => layout.separator depth ++ printAt layout depth x ++ printElements layout depth xs

/-- The members after the first. -/
def printMembers (layout : Layout) (depth : Nat) : List (Text × Value) → Text
  | [] => []
  | (k, v) :: ms =>
    layout.separator depth ++ printString k ++ colon ++ printAt layout depth v ++
      printMembers layout depth ms

end

mutual

/-- Whether an integer in a value has too many digits to be written. -/
def hasLongInteger : Value → Bool
  | .int n => decide (Numeral.maxDigits < digitCount n)
  | .list xs => haveLongInteger xs
  | .obj ms => membersHaveLongInteger ms
  | .null | .bool _ | .double _ | .str _ => false

def haveLongInteger : List Value → Bool
  | [] => false
  | x :: xs => hasLongInteger x || haveLongInteger xs

def membersHaveLongInteger : List (Text × Value) → Bool
  | [] => false
  | (_, v) :: ms => hasLongInteger v || membersHaveLongInteger ms

end

def print (layout : Layout) (v : Value) : Text :=
  printAt layout 0 v

def line (v : Value) : Except DepthError Text :=
  if v.depth ≤ nestingLimit then .ok (print .compact v) else .error .onOneLine

end Reshape.Json

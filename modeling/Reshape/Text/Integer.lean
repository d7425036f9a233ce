import Reshape.Number.Numeral
import Reshape.Text.Symbol

/-!
# Integers as arguments

An integer on a command line may have blanks around it, a sign, digits of any script, and
single underscores between its digits.
-/

namespace Reshape

/-- The code points of the zeros in Unicode 14, whose decimal digits come in runs of ten from zero
to nine. -/
def digitZeros : List Nat :=
  [0x30, 0x660, 0x6F0, 0x7C0, 0x966, 0x9E6, 0xA66, 0xAE6, 0xB66, 0xBE6, 0xC66, 0xCE6, 0xD66,
   0xDE6, 0xE50, 0xED0, 0xF20, 0x1040, 0x1090, 0x17E0, 0x1810, 0x1946, 0x19D0, 0x1A80, 0x1A90,
   0x1B50, 0x1BB0, 0x1C40, 0x1C50, 0xA620, 0xA8D0, 0xA900, 0xA9D0, 0xA9F0, 0xAA50, 0xABF0,
   0xFF10, 0x104A0, 0x10D30, 0x11066, 0x110F0, 0x11136, 0x111D0, 0x112F0, 0x11450, 0x114D0,
   0x11650, 0x116C0, 0x11730, 0x118E0, 0x11950, 0x11C50, 0x11D50, 0x11DA0, 0x16A60, 0x16AC0,
   0x16B50, 0x1D7CE, 0x1D7D8, 0x1D7E2, 0x1D7EC, 0x1D7F6, 0x1E140, 0x1E2F0, 0x1E950, 0x1FBF0]

/-- The value of a decimal digit of any script. -/
def digitValue? (c : Char) : Option Nat :=
  (digitZeros.find? fun first => decide (first ≤ c.toNat ∧ c.toNat < first + 10)).map
    (c.toNat - ·)

namespace Integer

/-- The values of the digits, where each underscore has a digit on both sides. -/
def digitValues : List Char → Option (List Nat)
  | [] => none
  | [c] => (digitValue? c).map ([·])
  | c :: '_' :: rest => do
    let d ← digitValue? c
    let ds ← digitValues rest
    return d :: ds
  | c :: rest => do
    let d ← digitValue? c
    let ds ← digitValues rest
    return d :: ds

def magnitude? (cs : List Char) : Option Nat := do
  let ds ← digitValues cs
  if ds.length ≤ Numeral.maxDigits then some (ds.foldl (10 * · + ·) 0) else none

/-- The blanks around an integer. The information separators are not among them. -/
def isMargin (c : Char) : Bool :=
  isBlank c && !(0x1C ≤ c.toNat && c.toNat ≤ 0x1F)

/-- The integer that characters stand for, if it is one. -/
def ofChars? (cs : List Char) : Option Int :=
  match trimWhere isMargin cs with
  | '-' :: rest => (magnitude? rest).map (-Int.ofNat ·)
  | '+' :: rest => (magnitude? rest).map Int.ofNat
  | cs => (magnitude? cs).map Int.ofNat

/-- The integer that a text stands for, if it is one. -/
def ofText? (t : Text) : Option Int :=
  (t.mapM Symbol.char?).bind ofChars?

end Integer

end Reshape

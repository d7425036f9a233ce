import Reshape.Number.Double

/-!
# The shortest decimal form of a double

Of all decimal numerals that read back to a double, `Double.shortest` takes one
with the fewest digits, and of those the nearest to the double, a tie going to
the even digit. `DoubleStyle` says how the digits are laid out as text.
-/

namespace Reshape

/-- `digits * 10 ^ exponent`. -/
structure Decimal where
  digits : Nat
  exponent : Int
  deriving DecidableEq, Repr

namespace Decimal

/-- The same number without zeros at the end; `fuel` bounds how many are dropped. -/
def dropZeros : Nat → Decimal → Decimal
  | 0, d => d
  | fuel + 1, d =>
    if d.digits ≠ 0 ∧ d.digits % 10 = 0 then
      dropZeros fuel ⟨d.digits / 10, d.exponent + 1⟩
    else d

end Decimal

/-- The least `p` with `num / den < 10 ^ p`, for positive `num` and `den`. Below one it is read
off the length of `den / num`, where only a power of ten itself lies on the border. -/
def decimalOrder (num den : Nat) : Int :=
  if den ≤ num then (Nat.toDigits 10 (num / den)).length
  else
    let length : Int := (Nat.toDigits 10 (den / num)).length
    if scale 10 num (length - 1) = den then 2 - length else 1 - length

namespace Double

/-- The neighbours of `num / den` on the grid of step `10 ^ exponent` that read back
to `x`, the nearer one first. -/
def neighbours (x : Double) (num den : Nat) (exponent : Int) : Option Decimal :=
  let scaled := scale 10 num (-exponent)
  let step := scale 10 den exponent
  let below := scaled / step
  let twice := 2 * scaled
  let middle := (2 * below + 1) * step
  let near := if twice < middle ∨ (twice = middle ∧ below % 2 = 0) then
      [below, below + 1] else [below + 1, below]
  (near.find? fun d => decide (ofDecimal false d exponent = x)).map (⟨·, exponent⟩)

/-- The decimal expansion of `significand * 2 ^ exponent`, which is always finite. -/
def exact (significand : Nat) (exponent : Int) : Decimal :=
  if 0 ≤ exponent then ⟨scale 2 significand exponent, 0⟩
  else ⟨scale 5 significand (-exponent), exponent⟩

/-- The first grid with a hit gives the digits, from one significant digit to seventeen. -/
def shortest (significand : Nat) (exponent : Int) (fits : Fits significand exponent) : Decimal :=
  let x := Double.finite false significand exponent fits
  let num := scale 2 significand exponent
  let den := scale 2 1 (-exponent)
  let order := decimalOrder num den
  let found := (List.range 17).findSome? fun n => neighbours x num den (order - (n + 1 : Nat))
  (found.getD (exact significand exponent)).dropZeros 400

end Double

/-- How doubles are written: the words for the numbers that have no digits, and the decimal
exponents of the leading digit that are written positionally. -/
structure DoubleStyle where
  nan : String
  infinity : String
  leastPositional : Int := -4
  greatestPositional : Int := 15

namespace DoubleStyle

/-- A point is always written, with a digit on both sides. -/
def positional (digits : List Char) (point : Int) : List Char :=
  if point ≤ 0 then '0' :: '.' :: List.replicate (-point).toNat '0' ++ digits
  else if digits.length ≤ point then
    digits ++ List.replicate (point - digits.length).toNat '0' ++ ['.', '0']
  else digits.take point.toNat ++ '.' :: digits.drop point.toNat

/-- A signed exponent of two digits at least, and no point after a lone digit. -/
def scientific (digits : List Char) (order : Int) : List Char :=
  let exponent := Nat.toDigits 10 order.natAbs
  let padded := if exponent.length < 2 then '0' :: exponent else exponent
  let mantissa := match digits with
    | first :: second :: more => first :: '.' :: second :: more
    | short => short
  mantissa ++ 'e' :: (if order < 0 then '-' else '+') :: padded

def magnitude (style : DoubleStyle) (d : Decimal) : List Char :=
  let digits := Nat.toDigits 10 d.digits
  let point : Int := if d.digits = 0 then 1 else digits.length + d.exponent
  if style.leastPositional ≤ point - 1 ∧ point - 1 ≤ style.greatestPositional then
    positional digits point
  else scientific digits (point - 1)

def signed (negative : Bool) (text : List Char) : List Char :=
  if negative then '-' :: text else text

def write (style : DoubleStyle) : Double → List Char
  | .nan => style.nan.toList
  | .infinity negative => signed negative style.infinity.toList
  | .finite negative m q fits => signed negative (style.magnitude (Double.shortest m q fits))

end DoubleStyle

end Reshape

/-!
# Binary64 numbers

A `Double` is a binary floating point number of 64 bits, kept as what it means:
not a number, an infinity, or a sign with `significand * 2 ^ exponent` in
canonical form. `Double.ofDecimal` rounds a decimal numeral to the nearest
double, a tie going to the even significand, in exact arithmetic on `Nat`.
-/

namespace Reshape

/-- `n * base ^ exponent`, where a negative exponent counts as zero. -/
def scale (base n : Nat) (exponent : Int) : Nat :=
  n * Nat.pow base exponent.toNat

/-- The least number of 53 bits. -/
def leastNormal : Nat :=
  scale 2 1 52

/-- The canonical form of a finite magnitude: 53 bits at most, and all of them
used unless the exponent is the least one. -/
def Fits (significand : Nat) (exponent : Int) : Prop :=
  significand < 2 * leastNormal ∧ -1074 ≤ exponent ∧ exponent ≤ 971 ∧
    (leastNormal ≤ significand ∨ exponent = -1074)

instance (significand : Nat) (exponent : Int) : Decidable (Fits significand exponent) :=
  inferInstanceAs (Decidable (_ ∧ _ ∧ _ ∧ _))

inductive Double where
  | nan
  | infinity (negative : Bool)
  | finite (negative : Bool) (significand : Nat) (exponent : Int)
      (fits : Fits significand exponent)
  deriving DecidableEq

/-- The quotient rounded to the nearest natural number, a tie to the even one. -/
def roundQuotient (num den : Nat) : Nat :=
  let q := num / den
  let r := num % den
  if 2 * r < den ∨ (2 * r = den ∧ q % 2 = 0) then q else q + 1

/-- The greatest `e` with `2 ^ e ≤ num / den`, for positive `num` and `den`. -/
def binaryOrder (num den : Nat) : Int :=
  let e : Int := (num.log2 : Int) - (den.log2 : Int)
  if scale 2 den e ≤ scale 2 num (-e) then e else e - 1

namespace Double

/-- What is too large for a finite double is an infinity. -/
def ofParts (negative : Bool) (significand : Nat) (exponent : Int) : Double :=
  if h : Fits significand exponent then .finite negative significand exponent h
  else .infinity negative

def zero (negative : Bool) : Double :=
  .ofParts negative 0 (-1074)

/-- The double nearest to `num / den`, for a positive `den`. -/
def ofQuotient (negative : Bool) (num den : Nat) : Double :=
  if num = 0 then zero negative
  else
    let q := max (binaryOrder num den - 52) (-1074)
    let m := roundQuotient (scale 2 num (-q)) (scale 2 den q)
    if m = 2 * leastNormal then ofParts negative leastNormal (q + 1) else ofParts negative m q

/-- The double nearest to `digits * 10 ^ exponent`. The first two tests settle the
exponents that no finite double but zero comes near, however long they are. -/
def ofDecimal (negative : Bool) (digits : Nat) (exponent : Int) : Double :=
  let order : Int := (Nat.toDigits 10 digits).length + exponent
  if digits = 0 ∨ order < -330 then zero negative
  else if order > 310 then .infinity negative
  else ofQuotient negative (scale 10 digits exponent) (scale 10 1 (-exponent))

end Double

end Reshape

/-!
# Decimal numerals

Natural numbers as the documents and paths write them: runs of ASCII digits,
leading zeros allowed, of at most `Numeral.maxDigits` digits. `Numeral.read`
refuses a longer run and says how long it was. `Numeral.isCanonical` picks out
the one numeral without superfluous zeros that `Nat.toDigits 10` writes.
-/

namespace Reshape

/-- A numeral has more digits than are read; `count` is how many it has. -/
structure TooManyDigits where
  count : Nat
  deriving DecidableEq, Repr

def TooManyDigits.message (e : TooManyDigits) : String :=
  s!"Exceeds the limit (4300 digits) for integer string conversion: value has {e.count} digits" ++
    "; use sys.set_int_max_str_digits() to increase the limit"

/-- What is said of a number that has too many digits to be written. -/
def tooManyToWrite : String :=
  "Exceeds the limit (4300 digits) for integer string conversion" ++
    "; use sys.set_int_max_str_digits() to increase the limit"

/-- How many digits an integer has. -/
def digitCount (n : Int) : Nat :=
  (Nat.toDigits 10 n.natAbs).length

namespace Numeral

/-- Leading zeros count, a sign does not. -/
def maxDigits : Nat := 4300

/-- The number that a run of digits stands for. -/
def read (digits : List Char) : Except TooManyDigits Nat :=
  if digits.length ≤ maxDigits then .ok (Nat.ofDigitChars 10 digits 0)
  else .error ⟨digits.length⟩

/-- A lone zero, or digits that do not start with zero. -/
def isCanonical : List Char → Bool
  | [] => false
  | ['0'] => true
  | '0' :: _ => false
  | c :: cs => (c :: cs).all Char.isDigit

theorem read_toDigits {n : Nat} (h : (Nat.toDigits 10 n).length ≤ maxDigits) :
    read (Nat.toDigits 10 n) = .ok n := by
  simp [read, h, Nat.ofDigitChars_toDigits]

theorem all_isDigit_of_isCanonical {cs : List Char} (h : isCanonical cs = true) :
    cs.all Char.isDigit = true := by
  unfold isCanonical at h
  split at h <;> simp_all

end Numeral

end Reshape

import Mathlib.Algebra.Order.Floor.Semifield
import Mathlib.Data.Int.Log
import Mathlib.Data.Rat.Floor
import Mathlib.Tactic.FieldSimp
import Mathlib.Tactic.Linarith
import Mathlib.Tactic.Positivity
import Mathlib.Tactic.Ring
import Reshape.Number.Double

/-!
# Rounding to doubles

`Double.nearest` is the double nearest to a rational number, a tie going to the even significand.
`Double.ofQuotient` and `Double.ofDecimal` compute it on natural numbers, so that what they give
is a matter of the number alone and not of how it is written (`ofDecimal_eq_nearest`). A number
that a double has is rounded to that double (`nearest_finite`).
-/

namespace Reshape

/-! ### Scaling -/

theorem scale_pos {base n : Nat} (hb : 0 < base) (hn : 0 < n) (e : Int) : 0 < scale base n e :=
  Nat.mul_pos hn (Nat.pow_pos hb)

/-- Scaling one side or the other of a quotient shifts it by a power of the base. -/
theorem scale_div_scale {base : Nat} (hb : 0 < base) (n d : Nat) (e : Int) :
    (scale base n (-e) : ℚ) / scale base d e = (n : ℚ) / d / (base : ℚ) ^ e := by
  have hb' : (base : ℚ) ≠ 0 := by positivity
  obtain ⟨k, rfl | rfl⟩ := e.eq_nat_or_neg
  · simp only [scale, Int.toNat_neg_natCast, Int.toNat_natCast, Nat.pow_eq, pow_zero, mul_one,
      Nat.cast_mul, Nat.cast_pow, zpow_natCast]
    field_simp
  · simp only [scale, neg_neg, Int.toNat_neg_natCast, Int.toNat_natCast, Nat.pow_eq, pow_zero,
      mul_one, Nat.cast_mul, Nat.cast_pow, zpow_neg, zpow_natCast]
    field_simp

theorem scale_le_scale_iff {base n d : Nat} (hb : 0 < base) (hd : 0 < d) (e : Int) :
    scale base d e ≤ scale base n (-e) ↔ (base : ℚ) ^ e ≤ (n : ℚ) / d := by
  have hpow : (0 : ℚ) < (base : ℚ) ^ e := zpow_pos (by positivity) e
  have hs : (0 : ℚ) < scale base d e := by exact_mod_cast scale_pos hb hd e
  rw [← Nat.cast_le (α := ℚ), ← one_le_div₀ hs, scale_div_scale hb, one_le_div₀ hpow]

/-! ### Nearest natural numbers -/

/-- The natural number nearest to a rational one, a tie going to the even one. -/
def halfEven (r : ℚ) : Nat :=
  if 2 * (r - ⌊r⌋₊) < 1 ∨ (2 * (r - ⌊r⌋₊) = 1 ∧ ⌊r⌋₊ % 2 = 0) then ⌊r⌋₊ else ⌊r⌋₊ + 1

theorem roundQuotient_eq_halfEven (num : Nat) {den : Nat} (hd : 0 < den) :
    roundQuotient num den = halfEven ((num : ℚ) / den) := by
  have hd' : (0 : ℚ) < den := by exact_mod_cast hd
  have hfloor : ⌊(num : ℚ) / den⌋₊ = num / den := Nat.floor_div_eq_div num den
  have hrest : (num : ℚ) / den - ((num / den : Nat) : ℚ) = ((num % den : Nat) : ℚ) / den := by
    have h : (num : ℚ) = den * ((num / den : Nat) : ℚ) + ((num % den : Nat) : ℚ) := by
      exact_mod_cast (Nat.div_add_mod num den).symm
    rw [h]
    field_simp
    ring
  have hlt : 2 * (((num % den : Nat) : ℚ) / den) < 1 ↔ 2 * (num % den) < den := by
    rw [← mul_div_assoc, div_lt_one hd']
    exact_mod_cast Iff.rfl
  have heq : 2 * (((num % den : Nat) : ℚ) / den) = 1 ↔ 2 * (num % den) = den := by
    rw [← mul_div_assoc, div_eq_one_iff_eq hd'.ne']
    exact_mod_cast Iff.rfl
  simp only [roundQuotient, halfEven, hfloor, hrest, hlt, heq]

theorem halfEven_natCast (n : Nat) : halfEven n = n := by
  simp [halfEven]

theorem halfEven_eq_zero {r : ℚ} (h : 2 * r < 1) : halfEven r = 0 := by
  have hfloor : ⌊r⌋₊ = 0 := Nat.floor_eq_zero.mpr (by linarith)
  simp [halfEven, hfloor, h]

theorem le_halfEven {r : ℚ} {n : Nat} (h : (n : ℚ) ≤ r) : n ≤ halfEven r := by
  have hfloor : n ≤ ⌊r⌋₊ := Nat.le_floor h
  unfold halfEven
  split
  · exact hfloor
  · exact Nat.le_succ_of_le hfloor

theorem halfEven_le {r : ℚ} {n : Nat} (hr : 0 ≤ r) (h : r ≤ n) : halfEven r ≤ n := by
  have hfloor : ⌊r⌋₊ ≤ n := Nat.floor_le_of_le h
  unfold halfEven
  split
  · exact hfloor
  · next hdown =>
    refine Nat.lt_of_le_of_ne hfloor fun heq => hdown (.inl ?_)
    have hle : (⌊r⌋₊ : ℚ) ≤ r := Nat.floor_le hr
    rw [heq] at hle ⊢
    linarith

/-! ### The binary order -/

theorem two_zpow_le_iff {r : ℚ} (hr : 0 < r) {e : Int} : (2 : ℚ) ^ e ≤ r ↔ e ≤ Int.log 2 r := by
  exact_mod_cast Int.zpow_le_iff_le_log one_lt_two hr

theorem lt_two_zpow_iff {r : ℚ} (hr : 0 < r) {e : Int} : r < (2 : ℚ) ^ e ↔ Int.log 2 r < e := by
  exact_mod_cast Int.lt_zpow_iff_log_lt one_lt_two hr

/-- A quotient lies above the quotient of a power of two below and one above. -/
theorem two_zpow_lt_div {a b la lb : Nat} (ha : 2 ^ la ≤ a) (hb : 0 < b) (hlb : b < 2 ^ (lb + 1)) :
    (2 : ℚ) ^ ((la : Int) - lb - 1) < (a : ℚ) / b := by
  have ha' : (2 : ℚ) ^ la ≤ a := by exact_mod_cast ha
  have hb' : (b : ℚ) < (2 : ℚ) ^ (lb + 1) := by exact_mod_cast hlb
  have hbpos : (0 : ℚ) < b := by exact_mod_cast hb
  have he : (la : Int) - lb - 1 = (la : Int) - ((lb + 1 : Nat) : Int) := by omega
  rw [he, zpow_sub₀ two_ne_zero, zpow_natCast, zpow_natCast, div_lt_div_iff₀ (by positivity) hbpos]
  calc (2 : ℚ) ^ la * b ≤ a * b := by gcongr
    _ < a * 2 ^ (lb + 1) := by gcongr; exact lt_of_lt_of_le (by positivity) ha'

theorem binaryOrder_eq_log {num den : Nat} (hn : 0 < num) (hd : 0 < den) :
    binaryOrder num den = Int.log 2 ((num : ℚ) / den) := by
  have hn' : (0 : ℚ) < num := by exact_mod_cast hn
  have hd' : (0 : ℚ) < den := by exact_mod_cast hd
  have hr : (0 : ℚ) < (num : ℚ) / den := by positivity
  have hlow : (2 : ℚ) ^ ((num.log2 : Int) - den.log2 - 1) ≤ (num : ℚ) / den :=
    (two_zpow_lt_div (Nat.log2_self_le hn.ne') hd Nat.lt_log2_self).le
  have hhigh : (num : ℚ) / den < (2 : ℚ) ^ ((num.log2 : Int) - den.log2 + 1) := by
    have h := two_zpow_lt_div (Nat.log2_self_le hd.ne') hn Nat.lt_log2_self
    have he : ((num.log2 : Int) - den.log2 + 1) = -((den.log2 : Int) - num.log2 - 1) := by omega
    rw [he, zpow_neg, ← inv_div (den : ℚ), inv_lt_inv₀ (by positivity) (zpow_pos two_pos _)]
    exact h
  rw [two_zpow_le_iff hr] at hlow
  rw [lt_two_zpow_iff hr] at hhigh
  have hstep : scale 2 den ((num.log2 : Int) - den.log2) ≤
      scale 2 num (-((num.log2 : Int) - den.log2)) ↔
        (num.log2 : Int) - den.log2 ≤ Int.log 2 ((num : ℚ) / den) := by
    rw [scale_le_scale_iff two_pos hd, Nat.cast_ofNat, two_zpow_le_iff hr]
  simp only [binaryOrder, hstep]
  split <;> omega

namespace Double

/-! ### Nearest doubles -/

/-- The double nearest to a number that is not negative. -/
def nearest (negative : Bool) (r : ℚ) : Double :=
  if r ≤ 0 then zero negative
  else
    let q := max (Int.log 2 r - 52) (-1074)
    let m := halfEven (r / (2 : ℚ) ^ q)
    if m = 2 * leastNormal then ofParts negative leastNormal (q + 1) else ofParts negative m q

theorem ofQuotient_eq_nearest (negative : Bool) (num : Nat) {den : Nat} (hd : 0 < den) :
    ofQuotient negative num den = nearest negative ((num : ℚ) / den) := by
  rcases Nat.eq_zero_or_pos num with rfl | hn
  · simp [ofQuotient, nearest]
  · have hd' : (0 : ℚ) < den := by exact_mod_cast hd
    have hn' : (0 : ℚ) < num := by exact_mod_cast hn
    have hr : ¬ (num : ℚ) / den ≤ 0 := not_le.mpr (by positivity)
    have hm (q : Int) : roundQuotient (scale 2 num (-q)) (scale 2 den q) =
        halfEven ((num : ℚ) / den / (2 : ℚ) ^ q) := by
      rw [roundQuotient_eq_halfEven _ (scale_pos two_pos hd q), scale_div_scale two_pos,
        Nat.cast_ofNat]
    simp only [ofQuotient, nearest, if_neg hn.ne', if_neg hr, binaryOrder_eq_log hn hd, hm]

theorem ofParts_of_fits {significand : Nat} {exponent : Int} (h : Fits significand exponent)
    (negative : Bool) :
    ofParts negative significand exponent = .finite negative significand exponent h :=
  dif_pos h

/-- A number that a double has is rounded to that double. -/
theorem nearest_finite (negative : Bool) {m : Nat} {q : Int} (h : Fits m q) :
    nearest negative (m * (2 : ℚ) ^ q) = .finite negative m q h := by
  obtain ⟨hlt, hq, -, hnormal⟩ := id h
  have hpow : (0 : ℚ) < (2 : ℚ) ^ q := zpow_pos two_pos q
  rcases Nat.eq_zero_or_pos m with rfl | hm
  · obtain rfl : q = -1074 := hnormal.resolve_left (by decide)
    simp [nearest, zero, ofParts_of_fits h]
  · have hr : (0 : ℚ) < m * (2 : ℚ) ^ q := by positivity
    have hleast : leastNormal = 2 ^ 52 := by decide
    have hhigh : Int.log 2 (m * (2 : ℚ) ^ q) < q + 53 := by
      rw [← lt_two_zpow_iff hr, add_comm, zpow_add₀ two_ne_zero]
      have : (m : ℚ) < 2 ^ 53 := by exact_mod_cast (show m < 2 ^ 53 by omega)
      gcongr
      exact_mod_cast this
    -- The significand of a normal number has 53 bits, so the order gives its exponent.
    have hmax : max (Int.log 2 (m * (2 : ℚ) ^ q) - 52) (-1074) = q := by
      rcases hnormal with hn | rfl
      · have hlow : q + 52 ≤ Int.log 2 (m * (2 : ℚ) ^ q) := by
          rw [← two_zpow_le_iff hr, add_comm, zpow_add₀ two_ne_zero]
          have : (2 : ℚ) ^ 52 ≤ m := by exact_mod_cast (show 2 ^ 52 ≤ m by omega)
          gcongr
          exact_mod_cast this
        omega
      · omega
    simp only [nearest, if_neg (not_le.mpr hr), hmax, mul_div_cancel_right₀ _ hpow.ne',
      halfEven_natCast, if_neg hlt.ne, ofParts_of_fits h]

theorem nearest_of_lt {r : ℚ} (h : r < (2 : ℚ) ^ (-1075 : Int)) (negative : Bool) :
    nearest negative r = zero negative := by
  unfold nearest
  split
  · rfl
  · next hr =>
    rw [lt_two_zpow_iff (not_le.mp hr)] at h
    have hmax : max (Int.log 2 r - 52) (-1074) = -1074 := by omega
    have hzero : halfEven (r / (2 : ℚ) ^ (-1074 : Int)) = 0 := by
      refine halfEven_eq_zero ?_
      have hhalf : (2 : ℚ) ^ (-1074 : Int) / 2 = 2 ^ (-1075 : Int) :=
        (zpow_sub_one₀ two_ne_zero (-1074)).symm
      rw [← mul_div_assoc, div_lt_one (zpow_pos two_pos _), ← lt_div_iff₀' two_pos, hhalf,
        lt_two_zpow_iff (not_le.mp hr)]
      exact h
    simp only [hmax, hzero, zero]
    exact if_neg (by decide)

theorem nearest_of_le {r : ℚ} (h : (2 : ℚ) ^ (1024 : Int) ≤ r) (negative : Bool) :
    nearest negative r = .infinity negative := by
  have hr : 0 < r := lt_of_lt_of_le (zpow_pos two_pos _) h
  rw [two_zpow_le_iff hr] at h
  have hlarge (m : Nat) {q : Int} (hq : 971 < q) : ofParts negative m q = .infinity negative :=
    dif_neg fun hf => by have := hf.2.2.1; omega
  simp only [nearest, if_neg (not_le.mpr hr),
    hlarge _ (q := max (Int.log 2 r - 52) (-1074)) (by omega),
    hlarge _ (q := max (Int.log 2 r - 52) (-1074) + 1) (by omega), ite_self]

/-- A number is rounded to a finite double if it is well below the greatest. -/
theorem nearest_ne_infinity {r : ℚ} (h : r < (2 : ℚ) ^ (1023 : Int)) (negative negative' : Bool) :
    nearest negative r ≠ .infinity negative' := by
  have hfits : ∀ {m : Nat} {q : Int}, Fits m q → ofParts negative m q ≠ .infinity negative' :=
    fun hf => by
      rw [ofParts_of_fits hf]
      nofun
  unfold nearest
  split
  · exact hfits (by decide)
  · next hr =>
    rw [not_le] at hr
    rw [lt_two_zpow_iff hr] at h
    dsimp only
    generalize hq : max (Int.log 2 r - 52) (-1074) = q
    have hpow : (0 : ℚ) < (2 : ℚ) ^ q := zpow_pos two_pos q
    have hleast : leastNormal = 2 ^ 52 := by decide
    have hhigh : halfEven (r / (2 : ℚ) ^ q) ≤ 2 * leastNormal := by
      refine halfEven_le (by positivity) ?_
      have hlt : r < (2 : ℚ) ^ (q + 53) := (lt_two_zpow_iff hr).mpr (by omega)
      rw [zpow_add₀ two_ne_zero] at hlt
      have heq : ((2 * leastNormal : Nat) : ℚ) = 2 ^ (53 : Int) := by
        rw [hleast]
        norm_num
      rw [div_le_iff₀ hpow, heq, mul_comm]
      exact hlt.le
    split
    · exact hfits ⟨by rw [hleast]; decide, by omega, by omega, .inl (le_refl _)⟩
    · next hne =>
      refine hfits ⟨lt_of_le_of_ne hhigh hne, by omega, by omega, ?_⟩
      rcases le_or_gt (Int.log 2 r - 52) (-1074) with hle | hgt
      · exact .inr (by omega)
      · refine .inl (le_halfEven ?_)
        have hlow : (2 : ℚ) ^ (q + 52) ≤ r := (two_zpow_le_iff hr).mpr (by omega)
        rw [zpow_add₀ two_ne_zero, mul_comm] at hlow
        rw [le_div_iff₀ hpow, hleast]
        exact_mod_cast hlow

/-! ### Decimal numerals -/

theorem lt_ten_pow_length (n : Nat) : n < 10 ^ (Nat.toDigits 10 n).length :=
  (Nat.length_toDigits_le_iff (by decide) (List.length_pos_iff.mpr Nat.toDigits_ne_nil)).mp le_rfl

theorem ten_pow_length_le {n : Nat} (hn : 0 < n) : 10 ^ ((Nat.toDigits 10 n).length - 1) ≤ n := by
  rcases Nat.eq_zero_or_pos ((Nat.toDigits 10 n).length - 1) with h0 | hpos
  · rw [h0]
    exact hn
  · rw [← not_lt, ← Nat.length_toDigits_le_iff (by decide) hpos]
    omega

theorem mul_zpow_lt (digits : Nat) (e : Int) :
    (digits : ℚ) * 10 ^ e < 10 ^ (((Nat.toDigits 10 digits).length : Int) + e) := by
  have hpow : (0 : ℚ) < 10 ^ e := zpow_pos (by norm_num) e
  rw [zpow_add₀ (by norm_num), zpow_natCast]
  gcongr
  exact_mod_cast lt_ten_pow_length digits

theorem zpow_le_mul_zpow {digits : Nat} (hd : 0 < digits) (e : Int) :
    (10 : ℚ) ^ (((Nat.toDigits 10 digits).length : Int) + e - 1) ≤ (digits : ℚ) * 10 ^ e := by
  have hpow : (0 : ℚ) < 10 ^ e := zpow_pos (by norm_num) e
  have hpos : 0 < (Nat.toDigits 10 digits).length := List.length_pos_iff.mpr Nat.toDigits_ne_nil
  rw [add_sub_right_comm, zpow_add₀ (by norm_num), ← Nat.cast_pred hpos, zpow_natCast]
  gcongr
  exact_mod_cast ten_pow_length_le hd

/-- What the length of a numeral settles is settled as by its number. -/
theorem ofDecimal_eq_nearest (negative : Bool) (digits : Nat) (exponent : Int) :
    ofDecimal negative digits exponent = nearest negative (digits * (10 : ℚ) ^ exponent) := by
  rcases Nat.eq_zero_or_pos digits with rfl | hd
  · simp [ofDecimal, nearest]
  have hhigh := mul_zpow_lt digits exponent
  have hlow := zpow_le_mul_zpow hd exponent
  simp only [ofDecimal, hd.ne', false_or]
  split
  · next hsmall =>
    refine (nearest_of_lt (hhigh.trans_le ?_) negative).symm
    have hborder : (2 : ℚ) ^ 1075 ≤ 10 ^ 331 := by
      exact_mod_cast (by decide +kernel : 2 ^ 1075 ≤ 10 ^ 331)
    calc (10 : ℚ) ^ (((Nat.toDigits 10 digits).length : Int) + exponent)
        ≤ 10 ^ (-331 : Int) := zpow_le_zpow_right₀ (by norm_num) (by omega)
      _ ≤ 2 ^ (-1075 : Int) := inv_anti₀ (by positivity) hborder
  · split
    · next hlarge =>
      refine (nearest_of_le (le_trans ?_ hlow) negative).symm
      calc (2 : ℚ) ^ (1024 : Int) ≤ 10 ^ (310 : Int) := by
            exact_mod_cast (by decide +kernel : 2 ^ 1024 ≤ 10 ^ 310)
        _ ≤ 10 ^ (((Nat.toDigits 10 digits).length : Int) + exponent - 1) :=
            zpow_le_zpow_right₀ (by norm_num) (by omega)
    · have h := scale_div_scale (show 0 < 10 by decide) digits 1 (-exponent)
      rw [neg_neg, Nat.cast_one, div_one, Nat.cast_ofNat, zpow_neg, div_inv_eq_mul] at h
      rw [ofQuotient_eq_nearest _ _ (scale_pos (by decide) one_pos _), h]

end Double

end Reshape

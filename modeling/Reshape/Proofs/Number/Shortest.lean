import Reshape.Number.Shortest
import Reshape.Proofs.Number.Rounding

/-!
# The shortest form reads back

The decimal numeral that stands for a finite double rounds to that double
(`Double.nearest_shortest`): the search takes only numerals that do, the decimal expansion that
stands in for a search without a hit is the number itself, and dropping zeros at the end changes
no number.
-/

namespace Reshape

namespace Decimal

/-- The number that a numeral stands for. -/
def value (d : Decimal) : ℚ :=
  d.digits * (10 : ℚ) ^ d.exponent

theorem value_dropZeros (fuel : Nat) (d : Decimal) : (d.dropZeros fuel).value = d.value := by
  induction fuel generalizing d with
  | zero => rfl
  | succ fuel ih =>
    unfold dropZeros
    split
    · next h =>
      rw [ih, value, value, zpow_add_one₀ (by norm_num)]
      have hdigits : (d.digits : ℚ) = 10 * ((d.digits / 10 : Nat) : ℚ) := by
        exact_mod_cast (Nat.mul_div_cancel' (Nat.dvd_of_mod_eq_zero h.2)).symm
      rw [hdigits]
      ring
    · rfl

end Decimal

namespace Double

theorem value_exact (m : Nat) (q : Int) : (exact m q).value = m * (2 : ℚ) ^ q := by
  obtain ⟨k, rfl | rfl⟩ := q.eq_nat_or_neg
  · simp [exact, Decimal.value, scale]
  · rcases Nat.eq_zero_or_pos k with rfl | hk
    · simp [exact, Decimal.value, scale]
    · have hneg : ¬ (0 : Int) ≤ -k := by omega
      have hten : (10 : ℚ) = 5 * 2 := by norm_num
      simp only [exact, if_neg hneg, Decimal.value, scale, neg_neg, Int.toNat_natCast, Nat.pow_eq,
        Nat.cast_mul, Nat.cast_pow, Nat.cast_ofNat, zpow_neg, zpow_natCast, hten, mul_pow]
      field_simp

theorem ofDecimal_of_neighbours {x : Double} {num den : Nat} {e : Int} {d : Decimal}
    (h : neighbours x num den e = some d) : ofDecimal false d.digits d.exponent = x := by
  simp only [neighbours, Option.map_eq_some_iff] at h
  obtain ⟨digits, hfound, rfl⟩ := h
  simpa using List.find?_some hfound

/-- The sign goes with the rounding. -/
theorem nearest_of_nearest_false {r : ℚ} {m : Nat} {q : Int} {fits : Fits m q}
    (h : nearest false r = .finite false m q fits) (negative : Bool) :
    nearest negative r = .finite negative m q fits := by
  have hparts : ∃ significand exponent, ∀ negative,
      nearest negative r = ofParts negative significand exponent := by
    unfold nearest
    split
    · exact ⟨_, _, fun _ => rfl⟩
    · dsimp only
      split
      · exact ⟨_, _, fun _ => rfl⟩
      · exact ⟨_, _, fun _ => rfl⟩
  obtain ⟨significand, exponent, hparts⟩ := hparts
  rw [hparts] at h ⊢
  unfold ofParts at h ⊢
  split at h
  · next hfits =>
    cases h
    exact dif_pos hfits
  · cases h

theorem nearest_shortest (negative : Bool) {m : Nat} {q : Int} (fits : Fits m q) :
    nearest negative (shortest m q fits).value = .finite negative m q fits := by
  refine nearest_of_nearest_false ?_ negative
  simp only [shortest, Decimal.value_dropZeros]
  rcases hfound : (List.range 17).findSome? _ with _ | d
  · rw [Option.getD_none, value_exact, nearest_finite]
  · obtain ⟨n, -, hn⟩ := List.exists_of_findSome?_eq_some hfound
    rw [Option.getD_some, Decimal.value, ← ofDecimal_eq_nearest, ofDecimal_of_neighbours hn]

end Double

end Reshape

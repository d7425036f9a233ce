import Reshape.Number.Numeral

/-!
# Canonical numerals

`Nat.toDigits 10` writes the canonical numeral of a number: no zero comes first unless it is the
only digit. Any other numeral of the number is the canonical one with zeros in front of it, which
`unpadded` leaves out (`toDigits_ofDigitChars`).
-/

namespace Reshape

namespace Numeral

theorem all_isDigit_toDigits (n : Nat) : (Nat.toDigits 10 n).all Char.isDigit = true :=
  List.all_eq_true.mpr fun _ hc => Nat.isDigit_of_mem_toDigits (by decide) (by decide) hc

theorem isCanonical_singleton {c : Char} (h : c.isDigit = true) : isCanonical [c] = true := by
  unfold isCanonical
  split <;> simp_all

theorem isCanonical_cons {c : Char} {cs : List Char} (hc : c ≠ '0')
    (h : (c :: cs).all Char.isDigit = true) : isCanonical (c :: cs) = true := by
  unfold isCanonical
  split <;> simp_all

/-- A positive number is not written with a zero in front. -/
theorem exists_toDigits_eq_cons {n : Nat} (hn : 0 < n) :
    ∃ c cs, Nat.toDigits 10 n = c :: cs ∧ c ≠ '0' := by
  induction n using Nat.base_induction 10 (by decide) with
  | single m hm =>
    refine ⟨m.digitChar, [], Nat.toDigits_of_lt_base hm, fun h => ?_⟩
    have hcode : m.digitChar.toNat = 48 + m := Nat.toNat_digitChar_of_lt_ten hm
    rw [h] at hcode
    simp only [Char.reduceToNat] at hcode
    omega
  | digit m k hk hm ih =>
    obtain ⟨c, cs, hcs, hc⟩ := ih hm
    exact ⟨c, cs ++ Nat.toDigits 10 k, by
      rw [← Nat.toDigits_append_toDigits (by decide) hm hk, hcs, List.cons_append], hc⟩

/-- Whatever digits come after the first of a positive number. -/
theorem isCanonical_take_append {n k : Nat} {ds : List Char} (hn : 0 < n) (hk : 0 < k)
    (hds : ds.all Char.isDigit = true) :
    isCanonical ((Nat.toDigits 10 n).take k ++ ds) = true := by
  obtain ⟨c, cs, hcs, hc⟩ := exists_toDigits_eq_cons hn
  have hall := all_isDigit_toDigits n
  obtain ⟨k, rfl⟩ := Nat.exists_eq_add_one.mpr hk
  rw [hcs, List.all_cons, Bool.and_eq_true] at hall
  rw [hcs, List.take_succ_cons, List.cons_append]
  refine isCanonical_cons hc ?_
  rw [List.all_cons, List.all_append, hall.1, hds, Bool.true_and, Bool.and_true, List.all_eq_true]
  exact fun d hd => List.all_eq_true.mp hall.2 d (List.mem_of_mem_take hd)

theorem isCanonical_toDigits (n : Nat) : isCanonical (Nat.toDigits 10 n) = true := by
  rcases Nat.eq_zero_or_pos n with rfl | hn
  · rfl
  · obtain ⟨c, cs, hcs, hc⟩ := exists_toDigits_eq_cons hn
    rw [hcs]
    exact isCanonical_cons hc (hcs ▸ all_isDigit_toDigits n)

/-! ### Zeros in front -/

/-- The digits without the zeros in front that another digit follows. -/
def unpadded : List Char → List Char
  | '0' :: c :: cs => unpadded (c :: cs)
  | cs => cs

theorem unpadded_of_ne {c : Char} (cs : List Char) (h : c ≠ '0') :
    unpadded (c :: cs) = c :: cs := by
  unfold unpadded
  split <;> simp_all

theorem digitChar_of_isDigit {c : Char} (h : c.isDigit = true) :
    c.toNat - '0'.toNat < 10 ∧ Nat.digitChar (c.toNat - '0'.toNat) = c := by
  obtain ⟨hlow, hhigh⟩ := Char.isDigit_iff_toNat.mp h
  simp only [Char.reduceToNat] at hlow hhigh ⊢
  have hlt : c.toNat - 48 < 10 := by omega
  refine ⟨hlt, Char.toNat_inj.mp ?_⟩
  rw [Nat.toNat_digitChar_of_lt_ten hlt]
  omega

/-- Digits that go on from a positive number stand behind its own. -/
theorem toDigits_ofDigitChars_append {n : Nat} (hn : 0 < n) {ds : List Char}
    (hds : ds.all Char.isDigit = true) :
    Nat.toDigits 10 (Nat.ofDigitChars 10 ds n) = Nat.toDigits 10 n ++ ds := by
  induction ds generalizing n with
  | nil => simp
  | cons d ds ih =>
    rw [List.all_cons, Bool.and_eq_true] at hds
    obtain ⟨hlt, hchar⟩ := digitChar_of_isDigit hds.1
    have hone : Nat.toDigits 10 (10 * n + (d.toNat - '0'.toNat)) = Nat.toDigits 10 n ++ [d] := by
      rw [← Nat.toDigits_append_toDigits (by decide) hn hlt, Nat.toDigits_of_lt_base hlt, hchar]
    rw [Nat.ofDigitChars_cons, ih (by omega) hds.2, hone, List.append_assoc]
    rfl

/-- The number of a numeral is written without the zeros that it does not need. -/
theorem toDigits_ofDigitChars {ds : List Char} (hne : ds ≠ [])
    (hds : ds.all Char.isDigit = true) :
    Nat.toDigits 10 (Nat.ofDigitChars 10 ds 0) = unpadded ds := by
  induction ds with
  | nil => exact absurd rfl hne
  | cons d ds ih =>
    rw [List.all_cons, Bool.and_eq_true] at hds
    by_cases hd : d = '0'
    · subst hd
      cases ds with
      | nil => rfl
      | cons c cs =>
        rw [Nat.ofDigitChars_cons, unpadded]
        exact ih (List.cons_ne_nil c cs) hds.2
    · obtain ⟨hlt, hchar⟩ := digitChar_of_isDigit hds.1
      have hpos : 0 < d.toNat - '0'.toNat := by
        refine Nat.pos_of_ne_zero fun hzero => hd ?_
        rw [← hchar, hzero]
        rfl
      rw [Nat.ofDigitChars_cons, Nat.mul_zero, Nat.zero_add,
        toDigits_ofDigitChars_append hpos hds.2, Nat.toDigits_of_lt_base hlt, hchar,
        unpadded_of_ne ds hd]
      rfl

theorem length_unpadded_le (ds : List Char) : (unpadded ds).length ≤ ds.length := by
  induction ds with
  | nil => exact Nat.le_refl _
  | cons d ds ih =>
    by_cases hd : d = '0'
    · subst hd
      cases ds with
      | nil => exact Nat.le_refl _
      | cons c cs => exact Nat.le_succ_of_le ih
    · exact Nat.le_of_eq (congrArg List.length (unpadded_of_ne ds hd))

/-- Only a zero that another digit follows is left out. -/
theorem unpadded_eq_self_iff {ds : List Char} :
    unpadded ds = ds ↔ ∀ c cs, ds ≠ '0' :: c :: cs := by
  constructor
  · rintro h c cs rfl
    have hle := length_unpadded_le (c :: cs)
    rw [unpadded] at h
    rw [h, List.length_cons] at hle
    omega
  · intro h
    unfold unpadded
    split
    · next c cs => exact absurd rfl (h c cs)
    · rfl

/-- The canonical numerals are those that numbers are written as. -/
theorem isCanonical_iff {ds : List Char} :
    isCanonical ds = true ↔ ∃ n, ds = Nat.toDigits 10 n := by
  constructor
  · intro h
    have hne : ds ≠ [] := by
      rintro rfl
      cases h
    have hpadded : ∀ c cs, ds ≠ '0' :: c :: cs := by
      rintro c cs rfl
      cases h
    refine ⟨Nat.ofDigitChars 10 ds 0, ?_⟩
    rw [toDigits_ofDigitChars hne (all_isDigit_of_isCanonical h), unpadded_eq_self_iff.mpr hpadded]
  · rintro ⟨n, rfl⟩
    exact isCanonical_toDigits n

end Numeral

end Reshape

import Mathlib.Data.Nat.Digits.Defs
import Reshape.Proofs.Path.Grammar

/-!
# The forms of a piece

A piece of a path is read as a wildcard if it is a key and `[]`, and as an index if it is a key and
digits in brackets; it is refused if these are too many, and is a plain key in all other cases. Each
form has its own reading, so what is read tells the form too (`Segment.ofText_forms`).
-/

namespace Reshape

namespace Numeral

/-- What digits come to, each by the power of ten of its place. -/
def value (digits : List Char) : Nat :=
  Nat.ofDigits 10 (digits.reverse.map fun c => c.toNat - '0'.toNat)

theorem ofDigitChars_eq_value (digits : List Char) :
    Nat.ofDigitChars 10 digits 0 = value digits := by
  unfold value
  induction digits with
  | nil => rfl
  | cons c cs ih =>
    -- The first digit has the highest place, which is the last one of the reversed digits.
    rw [Nat.ofDigitChars_cons, Nat.ofDigitChars_eq_ofDigitChars_zero, ih, List.reverse_cons,
      List.map_append, List.map_singleton, Nat.ofDigits_append, Nat.ofDigits_singleton,
      List.length_map, List.length_reverse, Nat.mul_zero, Nat.zero_add, Nat.add_comm]

end Numeral

namespace Segment

variable {piece key : Text}

theorem bracketed_nil_iff :
    Bracketed piece key [] ↔ piece = key ++ [.char '[', .char ']'] ∧ key ≠ [] ∧ .char '[' ∉ key :=
  ⟨fun h => ⟨h.eq, h.key_ne_nil, h.not_mem_key⟩, fun ⟨heq, hne, hno⟩ => ⟨heq, hne, hno, rfl⟩⟩

theorem ofText_eq_wildcard_iff :
    ofText piece = .ok { key, access := .wildcard } ↔ Bracketed piece key [] := by
  rw [ofText_eq_ok_iff]
  constructor
  · rintro (⟨_, hb, heq⟩ | ⟨_, _, _, _, _, heq⟩ | ⟨_, heq⟩)
    · cases heq
      exact hb
    · cases heq
    · cases heq
  · exact fun hb => .inl ⟨key, hb, rfl⟩

theorem ofText_eq_index_iff {n : Nat} :
    ofText piece = .ok { key, access := .index n } ↔
      ∃ digits, Bracketed piece key digits ∧ digits ≠ [] ∧
        digits.length ≤ Numeral.maxDigits ∧ n = Numeral.value digits := by
  simp only [ofText_eq_ok_iff, Numeral.ofDigitChars_eq_value]
  constructor
  · rintro (⟨_, _, heq⟩ | ⟨_, digits, hb, hd, hlen, heq⟩ | ⟨_, heq⟩)
    · cases heq
    · cases heq
      exact ⟨digits, hb, hd, hlen, rfl⟩
    · cases heq
  · rintro ⟨digits, hb, hd, hlen, rfl⟩
    exact .inr (.inl ⟨key, digits, hb, hd, hlen, rfl⟩)

theorem ofText_eq_plain_iff :
    ofText piece = .ok { key } ↔ key = piece ∧ ∀ key digits, ¬ Bracketed piece key digits := by
  rw [ofText_eq_ok_iff]
  constructor
  · rintro (⟨_, _, heq⟩ | ⟨_, _, _, _, _, heq⟩ | ⟨hno, heq⟩)
    · cases heq
    · cases heq
    · cases heq
      exact ⟨rfl, hno⟩
  · rintro ⟨rfl, hno⟩
    exact .inr (.inr ⟨hno, rfl⟩)

/-- What is said of a piece that is refused is how many digits it has. -/
theorem ofText_eq_error_iff {e : TooManyDigits} :
    ofText piece = .error e ↔ ∃ key digits, Bracketed piece key digits ∧
      Numeral.maxDigits < digits.length ∧ e = ⟨digits.length⟩ := by
  constructor
  · intro h
    obtain ⟨key, digits, hb, hlen⟩ := exists_ofText_error_iff.mp ⟨e, h⟩
    refine ⟨key, digits, hb, hlen, ?_⟩
    have hd : digits ≠ [] := fun hd => by simp [hd] at hlen
    rw [ofText_bracketed hb, if_neg hd, Numeral.read, if_neg (Nat.not_le.mpr hlen)] at h
    cases h
    rfl
  · rintro ⟨key, digits, hb, hlen, rfl⟩
    have hd : digits ≠ [] := fun hd => by simp [hd] at hlen
    rw [ofText_bracketed hb, if_neg hd, Numeral.read, if_neg (Nat.not_le.mpr hlen)]
    rfl

/-- Each reading of a piece goes with one form: a key and `[]` with a wildcard, a key and digits in
brackets with the index that they come to, or with a refusal if they are too many, and a plain key,
which is the whole piece, with everything else. -/
theorem ofText_forms (piece : Text) :
    (∀ key, ofText piece = .ok { key, access := .wildcard } ↔
      piece = key ++ [.char '[', .char ']'] ∧ key ≠ [] ∧ .char '[' ∉ key) ∧
    (∀ key n, ofText piece = .ok { key, access := .index n } ↔
      ∃ digits, Bracketed piece key digits ∧ digits ≠ [] ∧
        digits.length ≤ Numeral.maxDigits ∧ n = Numeral.value digits) ∧
    (∀ e, ofText piece = .error e ↔
      ∃ key digits, Bracketed piece key digits ∧
        Numeral.maxDigits < digits.length ∧ e = ⟨digits.length⟩) ∧
    ∀ key, ofText piece = .ok { key, access := .plain } ↔
      key = piece ∧ ∀ key digits, ¬ Bracketed piece key digits := by
  refine ⟨fun key => ?_, fun key n => ofText_eq_index_iff, fun e => ofText_eq_error_iff,
    fun key => ofText_eq_plain_iff⟩
  rw [ofText_eq_wildcard_iff, bracketed_nil_iff]

/-- A line break after the brackets makes a plain key of them. -/
example : ofText "items[]\n" = .ok { key := "items[]\n" } := by decide

end Segment

end Reshape

import Mathlib.Data.List.Basic
import Reshape.Json.Printer
import Reshape.Json.Quote

/-!
# Written strings read back

Each symbol of a string is written so that it is read as one unit, which joins with nothing
(`exists_units_escapeSymbol`). So the units of a written string come to the string, halves of
surrogate pairs included (`readQuoted_printString`).
-/

namespace Reshape.Json

/-- A unit comes to a symbol of its own, whatever follows. -/
def StringUnit.Yields (u : StringUnit) (s : Symbol) : Prop :=
  ∀ us, joinUnits (u :: us) = s :: joinUnits us

theorem yields_symbol (s : Symbol) : (StringUnit.symbol s).Yields s :=
  fun _ => by rw [joinUnits]

theorem yields_escape {c : Char} (hc : c.toNat < 0x20) :
    (StringUnit.escape c.toNat).Yields (.char c) := by
  have hhigh : isHighHalf c.toNat = false := by
    simp [isHighHalf]
    omega
  have hcode : Symbol.ofCode c.toNat = .char c := by
    simp only [Symbol.ofCode, Char.ofNat_toNat]
    exact dif_neg (by omega)
  intro us
  rcases us with _ | ⟨_ | _, us⟩ <;> simp [joinUnits, hhigh, hcode]

/-- The three ways to write a character: by a letter, by its code, and as it is. -/
theorem escapeChar_cases (c : Char) :
    (∃ letter, escapeChar c = ['\\', letter] ∧ simpleEscape? letter = some c) ∨
    (escapeChar c = '\\' :: 'u' :: Quoted.hex 4 c.toNat ∧ c.toNat < 0x20) ∨
    (escapeChar c = [c] ∧ c ≠ '"' ∧ c ≠ '\\' ∧ 0x20 ≤ c.toNat) := by
  unfold escapeChar
  split
  · next h => exact .inl ⟨c, rfl, by rcases h with rfl | rfl <;> rfl⟩
  next h =>
  rw [not_or] at h
  split
  · next hc => exact .inl ⟨'n', rfl, hc ▸ rfl⟩
  split
  · next hc => exact .inl ⟨'r', rfl, hc ▸ rfl⟩
  split
  · next hc => exact .inl ⟨'t', rfl, hc ▸ rfl⟩
  split
  · next hc => exact .inl ⟨'b', rfl, hc ▸ rfl⟩
  split
  · next hc => exact .inl ⟨'f', rfl, hc ▸ rfl⟩
  split
  · next hlow => exact .inr (.inl ⟨rfl, hlow⟩)
  · next hlow => exact .inr (.inr ⟨rfl, h.1, h.2, Nat.not_lt.mp hlow⟩)

/-! ### One symbol -/

section

variable {opening rest t : Text} {us : List StringUnit}

theorem units_symbol {s : Symbol} (hq : s ≠ .char '"') (hb : s ≠ .char '\\') (hs : 0x20 ≤ s.code)
    (ht : units opening t = .ok (us, rest)) :
    units opening (s :: t) = .ok (.symbol s :: us, rest) := by
  have hcode : ¬ s.code < 0x20 := Nat.not_lt.mpr hs
  rw [units]
  · rw [if_neg hcode, ht]
    rfl
  all_goals simp_all

theorem units_escape {c escaped : Char} (hc : simpleEscape? c = some escaped)
    (ht : units opening t = .ok (us, rest)) :
    units opening (.char '\\' :: .char c :: t) = .ok (.symbol (.char escaped) :: us, rest) := by
  have hu : c ≠ 'u' := fun h => by
    subst h
    cases hc
  rw [units]
  · simp only [Symbol.char?, Option.bind_some, hc, ht]
    rfl
  all_goals simp_all

theorem hex_of_lt {n : Nat} (hn : n < 0x20) :
    ∃ a b c d, Quoted.hex 4 n = [a, b, c, d] ∧ hexUnit? (Text.ofChars [a, b, c, d]) = some n := by
  have hall : ∀ n < 0x20, (Quoted.hex 4 n).length = 4 ∧
      hexUnit? (Text.ofChars (Quoted.hex 4 n)) = some n := by decide
  obtain ⟨hlength, hunit⟩ := hall n hn
  obtain ⟨a, b, c, d, hhex⟩ := List.length_eq_four.mp hlength
  exact ⟨a, b, c, d, hhex, hhex ▸ hunit⟩

theorem units_hex {n : Nat} (hn : n < 0x20) (ht : units opening t = .ok (us, rest)) :
    units opening (Text.ofChars ('\\' :: 'u' :: Quoted.hex 4 n) ++ t) =
      .ok (.escape n :: us, rest) := by
  obtain ⟨a, b, c, d, hhex, hunit⟩ := hex_of_lt hn
  cases t with
  | nil => cases ht
  | cons s t =>
    rw [hhex]
    change units opening (.char '\\' :: .char 'u' :: .char a :: .char b :: .char c :: .char d ::
      s :: t) = _
    have hunit : hexUnit? [.char a, .char b, .char c, .char d] = some n := hunit
    rw [units, hunit]
    simp only [ht]
    rfl

theorem exists_units_escapeSymbol (s : Symbol) (ht : units opening t = .ok (us, rest)) :
    ∃ u : StringUnit, u.Yields s ∧ units opening (escapeSymbol s ++ t) = .ok (u :: us, rest) := by
  cases s with
  | half offset =>
    exact ⟨_, yields_symbol _, units_symbol (by simp) (by simp) (by simp [Symbol.code]; omega) ht⟩
  | char c =>
    rcases escapeChar_cases c with ⟨letter, he, hletter⟩ | ⟨he, hlow⟩ | ⟨he, hq, hb, hlow⟩ <;>
      rw [escapeSymbol, he]
    · exact ⟨_, yields_symbol _, units_escape hletter ht⟩
    · exact ⟨_, yields_escape hlow, units_hex hlow ht⟩
    · exact ⟨_, yields_symbol _, units_symbol (by simpa using hq) (by simpa using hb) hlow ht⟩

end

theorem exists_units_printString (opening rest s : Text) :
    ∃ us, joinUnits us = s ∧
      units opening (s.flatMap escapeSymbol ++ .char '"' :: rest) = .ok (us, rest) := by
  induction s with
  | nil => exact ⟨[], rfl, by rw [List.flatMap_nil, List.nil_append, units]⟩
  | cons s t ih =>
    obtain ⟨us, hjoin, hus⟩ := ih
    obtain ⟨u, hu, hunits⟩ := exists_units_escapeSymbol s hus
    exact ⟨u :: us, by rw [hu, hjoin], by rw [List.flatMap_cons, List.append_assoc, hunits]⟩

theorem readQuoted_printString (s rest : Text) :
    readQuoted (s.flatMap escapeSymbol ++ .char '"' :: rest) = .ok (s, rest) := by
  obtain ⟨us, hjoin, hus⟩ := exists_units_printString
    (.char '"' :: (s.flatMap escapeSymbol ++ .char '"' :: rest)) rest s
  rw [readQuoted, hus]
  exact congrArg (fun s => Except.ok (s, rest)) hjoin

end Reshape.Json

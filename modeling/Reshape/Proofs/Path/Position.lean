import Reshape.Proofs.Number.Numeral
import Reshape.Proofs.Path.Compose

/-!
# Positions in a list

The keys that stand for positions in a list are the numerals that numbers are written as, and no
others (`Value.under_list_eq_ok_iff`). So an index behind a key leads to the same as its numeral as
a key of its own (`Path.readFrom_index`): where there is no such element, the one reading ends at
once, and the other one step later (`Path.read_position`).
-/

namespace Reshape

/-- The key that stands for a position in a list. -/
def positionKey (n : Nat) : Text :=
  Text.ofChars (Nat.toDigits 10 n)

variable {xs : List Value} {key : Text} {n : Nat}

theorem length_positionKey (n : Nat) : (positionKey n).length = (Nat.toDigits 10 n).length :=
  List.length_map _

theorem isCanonical_chars_iff : Numeral.isCanonical (Text.chars key) = true ↔
    ∃ n, key = positionKey n := by
  constructor
  · intro h
    obtain ⟨n, hn⟩ := Numeral.isCanonical_iff.mp h
    have hdigits : key.all (Symbol.satisfies Char.isDigit) = true :=
      Text.all_satisfies_of_chars (by decide) (Numeral.all_isDigit_of_isCanonical h)
    refine ⟨n, ?_⟩
    rw [positionKey, ← hn, Text.ofChars_chars hdigits]
  · rintro ⟨n, rfl⟩
    rw [positionKey, Text.chars_ofChars]
    exact Numeral.isCanonical_toDigits n

theorem listPosition?_positionKey (h : (positionKey n).length ≤ Numeral.maxDigits) :
    listPosition? (positionKey n) = .ok (some n) := by
  have hcanonical := isCanonical_chars_iff.mpr ⟨n, rfl⟩
  rw [length_positionKey] at h
  rw [listPosition?, if_pos hcanonical, positionKey, Text.chars_ofChars, Numeral.read_toDigits h]
  rfl

theorem listPosition?_eq_none (h : ∀ n, key ≠ positionKey n) : listPosition? key = .ok none := by
  refine if_neg fun hcanonical => ?_
  obtain ⟨n, hn⟩ := isCanonical_chars_iff.mp hcanonical
  exact h n hn

namespace Value

theorem under_list_positionKey (xs : List Value)
    (h : (positionKey n).length ≤ Numeral.maxDigits) :
    (list xs).under (positionKey n) = .ok xs[n]? := by
  rw [under, listPosition?_positionKey h]
  rfl

theorem under_list_getElem {i : Nat} (hi : i < xs.length)
    (h : (positionKey i).length ≤ Numeral.maxDigits) :
    (list xs).under (positionKey i) = .ok (some xs[i]) := by
  rw [under_list_positionKey xs h, List.getElem?_eq_getElem hi]

/-- There is nothing under a numeral past the end, nor under a key that is no numeral at all. -/
theorem under_list_eq_none (h : key.length ≤ Numeral.maxDigits)
    (hno : ∀ i < xs.length, key ≠ positionKey i) : (list xs).under key = .ok none := by
  by_cases hkey : ∃ n, key = positionKey n
  · obtain ⟨n, rfl⟩ := hkey
    have hn : xs.length ≤ n := Nat.le_of_not_lt fun hlt => hno n hlt rfl
    rw [under_list_positionKey xs h, List.getElem?_eq_none hn]
  · rw [under, listPosition?_eq_none fun n hn => hkey ⟨n, hn⟩]
    rfl

/-- What a list holds under a key: an element under the numeral of its position, and nothing under
any other key. -/
theorem under_list_eq_ok_iff {found : Option Value} (h : key.length ≤ Numeral.maxDigits) :
    (list xs).under key = .ok found ↔
      (∃ (i : Nat) (hi : i < xs.length), key = positionKey i ∧ found = some xs[i]) ∨
      (∀ i < xs.length, key ≠ positionKey i) ∧ found = none := by
  constructor
  · intro hfound
    by_cases hkey : ∃ i, i < xs.length ∧ key = positionKey i
    · obtain ⟨i, hi, rfl⟩ := hkey
      rw [under_list_getElem hi h] at hfound
      cases hfound
      exact .inl ⟨i, hi, rfl, rfl⟩
    · have hno : ∀ i < xs.length, key ≠ positionKey i := fun i hi heq => hkey ⟨i, hi, heq⟩
      rw [under_list_eq_none h hno] at hfound
      cases hfound
      exact .inr ⟨hno, rfl⟩
  · rintro (⟨i, hi, rfl, rfl⟩ | ⟨hno, rfl⟩)
    · exact under_list_getElem hi h
    · exact under_list_eq_none h hno

end Value

namespace Path

/-- From a value that holds a list under a key, an index leads where its numeral leads as a key. -/
theorem readFrom_index {v : Value} (hv : v ≠ .null) (hunder : v.under key = .ok (some (.list xs)))
    (hn : (Nat.toDigits 10 n).length ≤ Numeral.maxDigits) (q : Path) :
    readFrom (some v) ({ key, access := .index n } :: q) =
      readFrom (some v) ({ key } :: { key := positionKey n } :: q) := by
  have hlist : readFrom (some (.list xs)) ({ key := positionKey n } :: q) = readFrom xs[n]? q := by
    rw [← length_positionKey] at hn
    rw [readFrom_cons Value.noConfusion, Value.under_list_positionKey xs hn]
    rfl
  rw [readFrom_cons hv, readFrom_cons hv, hunder]
  exact hlist.symm

/-- A reading that comes to something behind a key has a value to find it in. -/
theorem exists_of_readFrom_key {current : Option Value} {w : Value}
    (h : readFrom current [{ key }] = .ok (some w)) :
    ∃ v, current = some v ∧ v ≠ .null ∧ v.under key = .ok (some w) := by
  cases current with
  | none => cases h
  | some v =>
    have hv : v ≠ .null := by
      rintro rfl
      cases h
    rw [readFrom_cons hv] at h
    obtain ⟨found, hfound, hrest⟩ := Traverse.bind_eq_ok_iff.mp h
    cases hrest
    exact ⟨v, rfl, hv, hfound⟩

/-- Under a key that is not too long a list holds the element whose position the key is the numeral
of, and otherwise nothing. So whatever path leads to the list, and whatever is read behind it, an
index and its numeral as a key lead to the same. -/
theorem read_position (xs : List Value) :
    (∀ key : Text, key.length ≤ Numeral.maxDigits → ∀ found,
      (Value.list xs).under key = .ok found ↔
        (∃ (i : Nat) (hi : i < xs.length), key = positionKey i ∧ found = some xs[i]) ∨
        (∀ i < xs.length, key ≠ positionKey i) ∧ found = none) ∧
    ∀ (root : Value) (p q : Path) (key : Text) (i : Nat), p.hasWildcard = false →
      read root (p ++ [⟨key, .plain⟩]) = .ok (some (.list xs)) →
      (Nat.toDigits 10 i).length ≤ Numeral.maxDigits →
      read root (p ++ ⟨key, .index i⟩ :: q) =
        read root (p ++ ⟨key, .plain⟩ :: ⟨positionKey i, .plain⟩ :: q) := by
  refine ⟨fun key hkey found => Value.under_list_eq_ok_iff hkey, ?_⟩
  intro root p q key i hp hlist hi
  rw [read, readFrom_append hp] at hlist
  obtain ⟨current, hcurrent, hlast⟩ := Traverse.bind_eq_ok_iff.mp hlist
  obtain ⟨v, rfl, hv, hunder⟩ := exists_of_readFrom_key hlast
  rw [read, read, readFrom_append hp, readFrom_append hp, hcurrent]
  exact readFrom_index hv hunder hi q

/-- A numeral with a zero in front, and the second element of a list under the empty key, read on
along a wildcard. -/
theorem read_position_padded :
    let xs : List Value := [.null, .obj [("b", .list [.int 1, .list [.int 2]])]]
    let root : Value := .obj [("a", .list [.obj [("", .list xs)]])]
    let p : Path := [⟨"a", .index 0⟩]
    let q : Path := [⟨"b", .wildcard⟩, ⟨"0", .plain⟩]
    ("01" : Text).length ≤ Numeral.maxDigits ∧ (Value.list xs).under "01" = .ok none ∧
    p.hasWildcard = false ∧ read root (p ++ [⟨"", .plain⟩]) = .ok (some (.list xs)) ∧
    (Nat.toDigits 10 1).length ≤ Numeral.maxDigits ∧
    read root (p ++ ⟨"", .index 1⟩ :: q) =
      read root (p ++ ⟨"", .plain⟩ :: ⟨"1", .plain⟩ :: q) ∧
    read root (p ++ ⟨"", .plain⟩ :: ⟨"1", .plain⟩ :: q) =
      .ok (some (.list [.null, .int 2])) := by
  intro xs root p q
  have hshort : ("01" : Text).length ≤ Numeral.maxDigits := by decide
  have hpadded : ∀ i < xs.length, ("01" : Text) ≠ positionKey i := by decide
  have hp : p.hasWildcard = false := rfl
  have hlist : read root (p ++ [⟨"", .plain⟩]) = .ok (some (.list xs)) := rfl
  have hone : (Nat.toDigits 10 1).length ≤ Numeral.maxDigits := by decide
  obtain ⟨hunder, hread⟩ := read_position xs
  exact ⟨hshort, (hunder "01" hshort none).mpr (.inr ⟨hpadded, rfl⟩), hp, hlist, hone,
    hread root p q "" 1 hp hlist hone, rfl⟩

end Path

end Reshape

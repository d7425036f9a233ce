import Reshape.Path.Segment
import Reshape.Proofs.Text

/-!
# The grammar of segments

`Bracketed piece key digits`: the piece is a key, not empty and without `[`, and digits in
brackets after it, possibly none. `Segment.ofText` takes such pieces apart and keeps every other
piece whole (`ofText_bracketed`, `ofText_plain`). It refuses only an index of too many digits
(`exists_ofText_error_iff`), and a path is refused for its pieces.
-/

namespace Reshape

namespace Segment

structure Bracketed (piece key : Text) (digits : List Char) : Prop where
  eq : piece = key ++ (.char '[' :: Text.ofChars digits ++ [.char ']'])
  key_ne_nil : key ≠ []
  not_mem_key : .char '[' ∉ key
  isDigit : digits.all Char.isDigit = true

/-- A key with a number in brackets, of any length. -/
def Indexed (piece : Text) : Prop :=
  ∃ key digits, Bracketed piece key digits ∧ digits ≠ []

/-- A key with a number in brackets that has too many digits to be read. -/
def Overlong (piece : Text) : Prop :=
  ∃ key digits, Bracketed piece key digits ∧ Numeral.maxDigits < digits.length

/-- The piece ends in `[]`. -/
def Marked (piece : Text) : Prop :=
  [.char '[', .char ']'] <:+ piece

instance (piece : Text) : Decidable (Marked piece) :=
  inferInstanceAs (Decidable (_ <:+ _))

theorem Overlong.indexed {piece : Text} (h : Overlong piece) : Indexed piece := by
  obtain ⟨key, digits, hb, hlen⟩ := h
  refine ⟨key, digits, hb, fun e => ?_⟩
  simp [e] at hlen

/-! ### Pieces -/

theorem bracketed?_eq_some_iff {t : Text} {digits : List Char} :
    bracketed? t = some digits ↔
      t = .char '[' :: Text.ofChars digits ++ [.char ']'] ∧ digits.all Char.isDigit = true := by
  constructor
  · intro h
    unfold bracketed? at h
    split at h
    · next rest =>
      split at h
      · next hr =>
        cases h
        obtain ⟨hlast, hd⟩ := hr
        obtain ⟨ds, rfl⟩ := List.getLast?_eq_some_iff.mp hlast
        rw [List.dropLast_concat] at hd ⊢
        exact ⟨by rw [Text.ofChars_chars hd]; rfl, Text.all_chars hd⟩
      · cases h
    · cases h
  · rintro ⟨rfl, hd⟩
    simp [bracketed?, Text.all_satisfies_ofChars, hd]

/-- The key of a bracketed piece is all that stands before the first `[`. -/
theorem bracketed_iff {piece key : Text} {digits : List Char} :
    Bracketed piece key digits ↔ piece.takeWhile (· != .char '[') = key ∧ key ≠ [] ∧
      bracketed? (piece.dropWhile (· != .char '[')) = some digits := by
  constructor
  · rintro ⟨rfl, hk, hn, hd⟩
    have hall : ∀ s ∈ key, (s != .char '[') = true := fun s hs => by
      rw [bne_iff_ne]
      exact fun e => hn (e ▸ hs)
    rw [List.dropWhile_append_of_pos hall, List.takeWhile_append_of_pos hall]
    refine ⟨by simp, hk, ?_⟩
    exact bracketed?_eq_some_iff.mpr ⟨by simp, hd⟩
  · rintro ⟨rfl, hk, hb⟩
    obtain ⟨ht, hd⟩ := bracketed?_eq_some_iff.mp hb
    refine ⟨?_, hk, fun hm => ?_, hd⟩
    · rw [← ht, List.takeWhile_append_dropWhile]
    · simpa using List.all_eq_true.mp List.all_takeWhile _ hm

/-- A piece has brackets in one way only. -/
theorem Bracketed.unique {piece key other : Text} {digits digits' : List Char}
    (h : Bracketed piece key digits) (h' : Bracketed piece other digits') :
    key = other ∧ digits = digits' := by
  obtain ⟨hkey, -, hdigits⟩ := bracketed_iff.mp h
  obtain ⟨hkey', -, hdigits'⟩ := bracketed_iff.mp h'
  exact ⟨hkey.symm.trans hkey', Option.some.inj (hdigits.symm.trans hdigits')⟩

instance (piece : Text) : Decidable (Indexed piece) :=
  decidable_of_iff (piece.takeWhile (· != .char '[') ≠ [] ∧
      (bracketed? (piece.dropWhile (· != .char '['))).any (· ≠ []) = true) <| by
    simp [Indexed, bracketed_iff, Option.any_eq_true, and_assoc]

instance (piece : Text) : Decidable (Overlong piece) :=
  decidable_of_iff (piece.takeWhile (· != .char '[') ≠ [] ∧
      (bracketed? (piece.dropWhile (· != .char '['))).any
        (fun digits => decide (Numeral.maxDigits < digits.length)) = true) <| by
    simp [Overlong, bracketed_iff, Option.any_eq_true, and_assoc]

theorem ofText_bracketed {piece key : Text} {digits : List Char} (h : Bracketed piece key digits) :
    ofText piece = if digits = [] then .ok { key, access := .wildcard }
      else (Numeral.read digits).map fun n => { key, access := .index n } := by
  obtain ⟨ht, hk, hb⟩ := bracketed_iff.mp h
  simp only [ofText, ht, hb, if_neg hk]
  split
  · rfl
  · cases Numeral.read digits <;> rfl

theorem ofText_plain {piece : Text} (h : ∀ key digits, ¬ Bracketed piece key digits) :
    ofText piece = .ok { key := piece } := by
  simp only [ofText]
  split
  · next digits hb =>
    have hk : piece.takeWhile (· != .char '[') = [] :=
      Decidable.byContradiction fun hk => h _ _ (bracketed_iff.mpr ⟨rfl, hk, hb⟩)
    rw [if_pos hk]
  · rfl

theorem ofText_of_not_mem {piece : Text} (h : .char '[' ∉ piece) :
    ofText piece = .ok { key := piece } := by
  refine ofText_plain fun key digits hb => h ?_
  rw [hb.eq]
  simp

/-- A piece is read as a wildcard, as an index of not too many digits, or as it stands. -/
theorem ofText_eq_ok_iff {piece : Text} {s : Segment} :
    ofText piece = .ok s ↔
      (∃ key, Bracketed piece key [] ∧ s = { key, access := .wildcard }) ∨
      (∃ key digits, Bracketed piece key digits ∧ digits ≠ [] ∧
        digits.length ≤ Numeral.maxDigits ∧
        s = { key, access := .index (Nat.ofDigitChars 10 digits 0) }) ∨
      (∀ key digits, ¬ Bracketed piece key digits) ∧ s = { key := piece } := by
  constructor
  · intro h
    by_cases hb : ∃ key digits, Bracketed piece key digits
    · obtain ⟨key, digits, hb⟩ := hb
      rw [ofText_bracketed hb] at h
      split at h
      · next hd =>
        cases h
        exact .inl ⟨key, hd ▸ hb, rfl⟩
      · next hd =>
        unfold Numeral.read at h
        split at h
        · next hlen =>
          cases h
          exact .inr (.inl ⟨key, digits, hb, hd, hlen, rfl⟩)
        · cases h
    · have hno : ∀ key digits, ¬ Bracketed piece key digits :=
        fun key digits h => hb ⟨key, digits, h⟩
      rw [ofText_plain hno] at h
      cases h
      exact .inr (.inr ⟨hno, rfl⟩)
  · rintro (⟨key, hb, rfl⟩ | ⟨key, digits, hb, hd, hlen, rfl⟩ | ⟨hno, rfl⟩)
    · rw [ofText_bracketed hb, if_pos rfl]
    · rw [ofText_bracketed hb, if_neg hd, Numeral.read, if_pos hlen]
      rfl
    · exact ofText_plain hno

/-- A piece that is neither marked nor indexed is read as it stands. -/
theorem ofText_eq_plain {piece : Text} (hm : ¬ Marked piece) (hi : ¬ Indexed piece) :
    ofText piece = .ok { key := piece } := by
  refine ofText_plain fun key digits h => ?_
  by_cases hd : digits = []
  · subst hd
    exact hm ⟨key, h.eq.symm⟩
  · exact hi ⟨key, digits, h, hd⟩

theorem Indexed.not_marked {piece : Text} (h : Indexed piece) : ¬ Marked piece := by
  obtain ⟨key, digits, hb, hd⟩ := h
  rintro ⟨front, hfront⟩
  obtain ⟨ds, d, rfl⟩ : ∃ ds d, digits = ds ++ [d] :=
    ⟨_, _, (List.dropLast_concat_getLast hd).symm⟩
  have hlast : piece = (key ++ .char '[' :: Text.ofChars ds) ++ [.char d, .char ']'] := by
    rw [hb.eq]
    simp [Text.ofChars]
  rw [hlast] at hfront
  have hpair := (List.append_inj' hfront rfl).2
  simp only [List.cons.injEq, Symbol.char.injEq, and_true] at hpair
  have hdigit := hb.isDigit
  rw [List.all_append, ← hpair] at hdigit
  simp at hdigit

/-- An index that is not too long is read. -/
theorem Indexed.ofText {piece : Text} (h : Indexed piece) (ho : ¬ Overlong piece) :
    ∃ key n, Segment.ofText piece = .ok { key, access := .index n } := by
  obtain ⟨key, digits, hb, hd⟩ := h
  have hlen : digits.length ≤ Numeral.maxDigits :=
    Nat.le_of_not_lt fun hlt => ho ⟨key, digits, hb, hlt⟩
  rw [ofText_bracketed hb, if_neg hd, Numeral.read, if_pos hlen]
  exact ⟨key, _, rfl⟩

theorem exists_ofText_error_iff {piece : Text} :
    (∃ e, ofText piece = .error e) ↔ Overlong piece := by
  by_cases hb : ∃ key digits, Bracketed piece key digits
  · obtain ⟨key, digits, hb⟩ := hb
    have hone : Overlong piece ↔ Numeral.maxDigits < digits.length := by
      constructor
      · rintro ⟨key', digits', hb', hlen⟩
        rwa [(hb.unique hb').2]
      · exact fun hlen => ⟨key, digits, hb, hlen⟩
    rw [hone, ofText_bracketed hb, Numeral.read]
    split
    · next hd => simp [hd]
    · split <;> simp [Except.map] <;> omega
  · have hno : ¬ Overlong piece := by
      rintro ⟨key, digits, h, -⟩
      exact hb ⟨key, digits, h⟩
    rw [ofText_plain fun key digits h => hb ⟨key, digits, h⟩]
    simp [hno]

theorem Overlong.length_lt {piece : Text} (h : Overlong piece) :
    Numeral.maxDigits < piece.length := by
  obtain ⟨key, digits, hb, hlen⟩ := h
  rw [hb.eq]
  simp [Text.ofChars]
  omega

theorem length_key_le {piece : Text} {s : Segment} (h : ofText piece = .ok s) :
    s.key.length ≤ piece.length := by
  rcases ofText_eq_ok_iff.mp h with ⟨key, hb, rfl⟩ | ⟨key, digits, hb, -, -, rfl⟩ | ⟨-, rfl⟩
  · rw [hb.eq, List.length_append]
    exact Nat.le_add_right _ _
  · rw [hb.eq, List.length_append]
    exact Nat.le_add_right _ _
  · exact Nat.le_refl _

/-- The key `a` with one digit more in brackets than is read. -/
def overlongIndex : Text :=
  .char 'a' :: .char '[' :: Text.ofChars (List.replicate (Numeral.maxDigits + 1) '0') ++ [.char ']']

theorem overlong_overlongIndex : Overlong overlongIndex := by
  refine ⟨[.char 'a'], List.replicate (Numeral.maxDigits + 1) '0', ⟨rfl, by simp, by simp, ?_⟩, ?_⟩
  · rw [List.all_replicate]
    decide
  · simp

end Segment

namespace Path

theorem pieces_overlongIndex : pieces Segment.overlongIndex = [Segment.overlongIndex] := by
  refine List.splitOn_eq_singleton fun h => ?_
  simp [Segment.overlongIndex, Text.ofChars] at h

end Path

end Reshape

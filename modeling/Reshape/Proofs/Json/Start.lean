import Reshape.Json.Decoder
import Reshape.Proofs.Text.Blank

/-!
# How a value starts

What is read as a value is told by its first symbol: a container by its bracket, a string by its
quote, and anything else is a word or a number. Nothing is read from a text that starts otherwise
(`readValue_eq_error`), so that a blank text holds no value (`exists_decode_error_of_blank`).
-/

namespace Reshape

namespace Json

/-! ### Dispatch on the first symbol -/

theorem readValue_eq_readScalar {t : Text} (ha : t.head? ≠ some (.char '['))
    (ho : t.head? ≠ some (.char '\x7b')) (fuel depth : Nat) :
    readValue fuel depth t = readScalar t := by
  unfold readValue
  cases depth <;> dsimp only <;> split <;> first | rfl | exact (ha rfl).elim | exact (ho rfl).elim

theorem readScalar_eq_readNumber {t : Text} (hq : t.head? ≠ some (.char '"'))
    (hw : word? t = none) : readScalar t = readNumber t := by
  unfold readScalar
  split
  · exact (hq rfl).elim
  · rw [hw]

theorem word?_eq_none_iff {t : Text} : word? t = none ↔ ∀ w ∈ words, ¬ (w.1 : Text) <+: t := by
  simp [word?, afterWord?, List.findSome?_eq_none_iff]

theorem takeSign_eq_self {t : Text} (h : t.head? ≠ some (.char '-')) :
    NumberToken.takeSign t = (false, t) := by
  unfold NumberToken.takeSign
  split
  · exact (h rfl).elim
  · rfl

theorem takeDigits_eq_nil {t : Text} (h : ∀ c, t.head? = some (.char c) → c.isDigit = false) :
    NumberToken.takeDigits t = ([], t) := by
  cases t with
  | nil => rfl
  | cons s rest =>
    cases s with
    | char c => simp [NumberToken.takeDigits, h c rfl]
    | half offset => rfl

theorem readNumber_eq_error {t : Text} (hs : t.head? ≠ some (.char '-'))
    (hd : ∀ c, t.head? = some (.char c) → c.isDigit = false) :
    readNumber t = .error (.malformed .expectingValue t) := by
  simp [readNumber, NumberToken.take?, NumberToken.takeWhole, takeSign_eq_self hs,
    takeDigits_eq_nil hd]

/-- What comes first in the text of a value. -/
def isStart (c : Char) : Bool :=
  c.isDigit || ['"', '[', '\x7b', '-', 'n', 't', 'f', 'N', 'I'].contains c

theorem word?_eq_none {t : Text} (h : ∀ c, t.head? = some (.char c) → isStart c = false) :
    word? t = none := by
  refine word?_eq_none_iff.mpr fun w hw hp => ?_
  have hstart : ∀ w ∈ words, (w.1 : Text).head?.any (·.satisfies isStart) = true := by decide
  obtain ⟨more, rfl⟩ := hp
  have hw := hstart w hw
  cases hword : (w.1 : Text) with
  | nil =>
    rw [hword] at hw
    cases hw
  | cons s rest =>
    rw [hword] at hw h
    cases s with
    | char c =>
      have hc : isStart c = true := hw
      rw [h c rfl] at hc
      cases hc
    | half offset => cases hw

theorem readValue_eq_error {t : Text} (h : ∀ c, t.head? = some (.char c) → isStart c = false)
    (fuel depth : Nat) : readValue fuel depth t = .error (.malformed .expectingValue t) := by
  have hne (c : Char) (hc : isStart c = true) : t.head? ≠ some (.char c) := fun e => by
    rw [h c e] at hc
    cases hc
  have hdigit (c : Char) (hc : t.head? = some (.char c)) : c.isDigit = false :=
    (Bool.or_eq_false_iff.mp (h c hc)).1
  rw [readValue_eq_readScalar (hne _ rfl) (hne _ rfl),
    readScalar_eq_readNumber (hne _ rfl) (word?_eq_none h), readNumber_eq_error (hne _ rfl) hdigit]

theorem exists_start_of_readValue_ok {fuel depth : Nat} {t : Text} {found : Value × Text}
    (h : readValue fuel depth t = .ok found) :
    ∃ c, t.head? = some (.char c) ∧ isStart c = true := by
  refine Classical.byContradiction fun hn => ?_
  rw [readValue_eq_error fun c hc => Bool.eq_false_iff.mpr fun hs => hn ⟨c, hc, hs⟩] at h
  cases h

/-! ### Blank texts -/

theorem isStart_eq_false_of_isBlank {c : Char} (h : isBlank c = true) : isStart c = false := by
  rw [isStart, Bool.or_eq_false_iff]
  constructor
  · simp only [isBlank, Bool.or_eq_true, Bool.and_eq_true, decide_eq_true_eq, beq_iff_eq] at h
    simp only [Char.isDigit, ge_iff_le, UInt32.le_iff_toNat_le, Bool.and_eq_false_iff,
      decide_eq_false_iff_not]
    have hc : c.toNat = c.val.toNat := rfl
    have h0 : '0'.val.toNat = 48 := rfl
    have h9 : '9'.val.toNat = 57 := rfl
    omega
  · rw [Bool.eq_false_iff, ne_eq, List.contains_iff_mem]
    intro hm
    have hall : (['"', '[', '\x7b', '-', 'n', 't', 'f', 'N', 'I'].all (!isBlank ·)) = true := by
      decide
    have hc : (!isBlank c) = true := List.all_eq_true.mp hall c hm
    rw [h] at hc
    cases hc

theorem exists_decode_error_of_blank {t : Text} (h : trim t = []) :
    ∃ e, decode t = .error e := by
  have hall : ∀ s ∈ t, s.satisfies isBlank = true := trimWhere_eq_nil_iff.mp h
  have hskip (c : Char) (hc : (skipSpace t).head? = some (.char c)) : isStart c = false :=
    isStart_eq_false_of_isBlank (hall _ ((List.dropWhile_sublist _).mem (List.mem_of_mem_head? hc)))
  unfold decode readText
  split
  · exact ⟨_, rfl⟩
  · rw [readValue_eq_error hskip]
    exact ⟨_, rfl⟩

end Json

end Reshape

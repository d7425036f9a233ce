import Reshape.Json.Decoder
import Reshape.Proofs.Keyed
import Reshape.Proofs.Number.Numeral
import Reshape.Proofs.Traverse
import Reshape.Value.Display

/-!
# What is read can be shown

A document holds no integer of too many digits, and its containers nest only so deep
(`Json.legible_of_decode`): each step of the decoder takes a value that is `Value.Legible` off the
text. Such a value has a quoted text where one call more fits than it nests
(`Value.Legible.exists_quoted`).
-/

namespace Reshape

/-- Containers nest no deeper than this in a value, and each integer in it can be written. -/
inductive Value.Legible : Nat → Value → Prop where
  | null {n : Nat} : Legible n null
  | bool {n : Nat} (b : Bool) : Legible n (bool b)
  | int {n : Nat} {i : Int} (digits : digitCount i ≤ Numeral.maxDigits) : Legible n (int i)
  | double {n : Nat} (x : Double) : Legible n (double x)
  | str {n : Nat} (s : Text) : Legible n (str s)
  | list {n : Nat} {xs : List Value} (elements : ∀ x ∈ xs, Legible n x) : Legible (n + 1) (list xs)
  | obj {n : Nat} {ms : List (Text × Value)} (members : ∀ m ∈ ms, Legible n m.2) :
      Legible (n + 1) (obj ms)

namespace Json

open NumberToken (takeDigits takeWhole)

variable {fuel depth : Nat} {t rest : Text} {v : Value}

/-! ### Scalars -/

theorem all_isDigit_takeDigits (t : Text) : (takeDigits t).1.all Char.isDigit = true := by
  induction t with
  | nil => rfl
  | cons s t ih =>
    cases s with
    | half code => rfl
    | char c =>
      rw [takeDigits]
      split
      · next hc =>
        rw [List.all_cons, hc]
        exact ih
      · rfl

theorem isDigit_of_takeWhole {whole : List Char} (h : takeWhole t = some (whole, rest)) :
    whole ≠ [] ∧ whole.all Char.isDigit = true := by
  have hall := all_isDigit_takeDigits t
  unfold takeWhole at h
  split at h
  · cases h
  · next c digits after htake =>
    rw [htake] at hall
    split at h
    · next hc =>
      cases h
      rw [List.all_cons, Bool.and_eq_true] at hall
      exact ⟨List.cons_ne_nil _ _, by simpa using hall.1⟩
    · cases h
      exact ⟨List.cons_ne_nil _ _, hall⟩

/-- The number of a numeral has no more digits than the numeral. -/
theorem digitCount_le_of_read {whole : List Char} {n : Nat} (hne : whole ≠ [])
    (hdigits : whole.all Char.isDigit = true) (h : Numeral.read whole = .ok n) (negative : Bool) :
    digitCount (if negative then -(n : Int) else n) ≤ Numeral.maxDigits := by
  unfold Numeral.read at h
  split at h
  · next hlength =>
    cases h
    have habs : (if negative then -(Nat.ofDigitChars 10 whole 0 : Int)
        else Nat.ofDigitChars 10 whole 0).natAbs = Nat.ofDigitChars 10 whole 0 := by
      split <;> simp
    rw [digitCount, habs, Numeral.toDigits_ofDigitChars hne hdigits]
    exact Nat.le_trans (Numeral.length_unpadded_le whole) hlength
  · cases h

theorem digits_of_take? {token : NumberToken} (h : NumberToken.take? t = some (token, rest)) :
    token.whole ≠ [] ∧ token.whole.all Char.isDigit = true := by
  obtain ⟨⟨whole, after⟩, hwhole, h⟩ := Option.bind_eq_some_iff.mp h
  cases h
  exact isDigit_of_takeWhole hwhole

theorem legible_of_readNumber (h : readNumber t = .ok (v, rest)) : v.Legible depth := by
  unfold readNumber at h
  split at h
  · cases h
  · next token after htake =>
    obtain ⟨hne, hdigits⟩ := digits_of_take? htake
    split at h
    · next w hvalue =>
      cases h
      unfold NumberToken.value at hvalue
      split at hvalue
      · obtain ⟨n, hread, hint⟩ := Traverse.bind_eq_ok_iff.mp hvalue
        cases hint
        exact .int (digitCount_le_of_read hne hdigits hread token.negative)
      · cases hvalue
        exact .double _
    · cases h

theorem legible_of_mem_words {w : String × Value} (h : w ∈ words) : w.2.Legible depth := by
  simp only [words, List.mem_cons, List.not_mem_nil, or_false] at h
  rcases h with rfl | rfl | rfl | rfl | rfl | rfl
  · exact .null
  · exact .bool true
  · exact .bool false
  · exact .double _
  · exact .double _
  · exact .double _

theorem legible_of_readScalar (h : readScalar t = .ok (v, rest)) : v.Legible depth := by
  unfold readScalar at h
  split at h
  · obtain ⟨⟨s, after⟩, -, hstr⟩ := Traverse.bind_eq_ok_iff.mp h
    cases hstr
    exact .str s
  · split at h
    · next found hword =>
      cases h
      obtain ⟨w, hw, hafter⟩ := List.exists_of_findSome?_eq_some hword
      obtain ⟨after, -, heq⟩ := Option.map_eq_some_iff.mp hafter
      cases heq
      exact legible_of_mem_words hw
    · exact legible_of_readNumber h

/-! ### Containers -/

variable {item : Reader Value} {P : Value → Prop}

/-- What is true of each value that is read is true of all elements of a list. -/
theorem forall_of_readElements (hitem : ∀ t v rest, item t = .ok (v, rest) → P v) {vs : List Value}
    (h : readElements item fuel t = .ok (vs, rest)) : ∀ v ∈ vs, P v := by
  induction fuel generalizing t vs rest with
  | zero => cases h
  | succ fuel ih =>
    obtain ⟨⟨v, after⟩, hv, h⟩ := Traverse.bind_eq_ok_iff.mp h
    dsimp only at h
    split at h
    · cases h
      exact List.forall_mem_singleton.mpr (hitem _ _ _ hv)
    · obtain ⟨⟨more, after'⟩, hmore, h⟩ := Traverse.bind_eq_ok_iff.mp h
      cases h
      exact List.forall_mem_cons.mpr ⟨hitem _ _ _ hv, ih hmore⟩
    · cases h

theorem of_readMember (hitem : ∀ t v rest, item t = .ok (v, rest) → P v) {m : Text × Value}
    (h : readMember item t = .ok (m, rest)) : P m.2 := by
  unfold readMember at h
  split at h
  · obtain ⟨⟨name, after⟩, -, h⟩ := Traverse.bind_eq_ok_iff.mp h
    dsimp only at h
    split at h
    · obtain ⟨⟨v, after'⟩, hv, h⟩ := Traverse.bind_eq_ok_iff.mp h
      cases h
      exact hitem _ _ _ hv
    · cases h
  · cases h

theorem forall_of_readMembers (hitem : ∀ t v rest, item t = .ok (v, rest) → P v)
    {ms : List (Text × Value)} (h : readMembers item fuel t = .ok (ms, rest)) :
    ∀ m ∈ ms, P m.2 := by
  induction fuel generalizing t ms rest with
  | zero => cases h
  | succ fuel ih =>
    obtain ⟨⟨m, after⟩, hm, h⟩ := Traverse.bind_eq_ok_iff.mp h
    dsimp only at h
    split at h
    · cases h
      exact List.forall_mem_singleton.mpr (of_readMember hitem hm)
    · obtain ⟨⟨more, after'⟩, hmore, h⟩ := Traverse.bind_eq_ok_iff.mp h
      cases h
      exact List.forall_mem_cons.mpr ⟨of_readMember hitem hm, ih hmore⟩
    · cases h

theorem legible_of_readList (hitem : ∀ t v rest, item t = .ok (v, rest) → v.Legible depth)
    (h : readList item fuel t = .ok (v, rest)) : v.Legible (depth + 1) := by
  unfold readList at h
  split at h
  · cases h
    exact .list nofun
  · obtain ⟨⟨vs, after⟩, hvs, h⟩ := Traverse.bind_eq_ok_iff.mp h
    cases h
    exact .list (forall_of_readElements hitem hvs)

theorem legible_of_readObject (hitem : ∀ t v rest, item t = .ok (v, rest) → v.Legible depth)
    (h : readObject item fuel t = .ok (v, rest)) : v.Legible (depth + 1) := by
  unfold readObject at h
  split at h
  · cases h
    exact .obj nofun
  · obtain ⟨⟨ms, after⟩, hms, h⟩ := Traverse.bind_eq_ok_iff.mp h
    cases h
    refine .obj fun m hm => forall_of_readMembers hitem hms m ?_
    exact (Keyed.mem_putAll hm).resolve_left nofun

theorem legible_of_readValue (h : readValue fuel depth t = .ok (v, rest)) : v.Legible depth := by
  induction depth generalizing t v rest with
  | zero =>
    unfold readValue at h
    split at h
    · cases h
    · cases h
    · exact legible_of_readScalar h
  | succ depth ih =>
    unfold readValue at h
    split at h
    · exact legible_of_readList (fun _ _ _ => ih) h
    · exact legible_of_readObject (fun _ _ _ => ih) h
    · exact legible_of_readScalar h

theorem legible_of_readText (h : readText t = .ok v) : v.Legible nestingLimit := by
  unfold readText at h
  split at h
  · cases h
  · obtain ⟨⟨w, after⟩, hw, h⟩ := Traverse.bind_eq_ok_iff.mp h
    dsimp only at h
    split at h
    · cases h
      exact legible_of_readValue hw
    · cases h

/-- A value that a text holds. -/
theorem legible_of_decode (h : decode t = .ok v) : v.Legible nestingLimit := by
  unfold decode at h
  cases hread : readText t with
  | error e =>
    rw [hread] at h
    cases h
  | ok w =>
    rw [hread] at h
    cases h
    exact legible_of_readText hread

end Json

/-! ### Showing -/

namespace Value

theorem quoted_list (room : Nat) (xs : List Value) :
    quoted (room + 1) (.list xs) =
      (do return "[" ++ ", ".intercalate (← xs.mapM (quoted room)) ++ "]") := rfl

theorem quoted_obj (room : Nat) (ms : List (Text × Value)) :
    quoted (room + 1) (.obj ms) =
      (do return "\x7b" ++ ", ".intercalate (← ms.mapM fun (k, v) =>
        return Reshape.quoted k ++ ": " ++ (← v.quoted room)) ++ "\x7d") := rfl

/-- One call for each container and one for what is in the innermost. -/
theorem Legible.exists_quoted {n room : Nat} {v : Value} (h : v.Legible n) (hroom : n < room) :
    ∃ shown, v.quoted room = .ok shown := by
  obtain ⟨room, rfl⟩ : ∃ k, room = k + 1 := ⟨room - 1, by omega⟩
  induction h generalizing room with
  | null => exact ⟨_, rfl⟩
  | bool b => cases b <;> exact ⟨_, rfl⟩
  | @int n i digits => exact ⟨toString i, if_neg (Nat.not_lt.mpr digits)⟩
  | double x => exact ⟨_, rfl⟩
  | str s => exact ⟨_, rfl⟩
  | @list n xs elements ih =>
    obtain ⟨room, rfl⟩ : ∃ k, room = k + 1 := ⟨room - 1, by omega⟩
    obtain ⟨parts, hparts⟩ := Traverse.exists_mapM_ok fun x hx => ih x hx room (by omega)
    rw [quoted_list, hparts]
    exact ⟨_, rfl⟩
  | @obj n ms members ih =>
    obtain ⟨room, rfl⟩ : ∃ k, room = k + 1 := ⟨room - 1, by omega⟩
    have hmember : ∀ m ∈ ms, ∃ line,
        (do return Reshape.quoted m.1 ++ ": " ++ (← m.2.quoted (room + 1)) :
          Except TextError String) = .ok line := fun m hm => by
      obtain ⟨shown, hshown⟩ := ih m hm room (by omega)
      rw [hshown]
      exact ⟨_, rfl⟩
    obtain ⟨parts, hparts⟩ := Traverse.exists_mapM_ok hmember
    rw [quoted_obj, hparts]
    exact ⟨_, rfl⟩

end Value

end Reshape

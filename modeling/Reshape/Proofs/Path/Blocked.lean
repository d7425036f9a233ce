import Reshape.Proofs.Path.Fields
import Reshape.Proofs.Store.Reading

/-!
# What stops a reading

Reading along a path is stopped in one way only: by a number of too many digits, either as an
index in the text of the path or as a key that is looked up in a list. `Blocked` follows the path
from one thing to the next up to such a list, and `Stops` is what stops a reading of a text
(`exists_readText_error_iff`). Both are told of all that can be looked at (`Look.Blocked`), and of
values as a case of it (`Path.Blocked`).
-/

namespace Reshape

/-- The key stands for a position in a list, but has too many digits to be read. -/
def OverlongPosition (key : Text) : Prop :=
  Numeral.isCanonical (Text.chars key) = true ∧ Numeral.maxDigits < key.length

theorem exists_listPosition_error_iff {key : Text} :
    (∃ e, listPosition? key = .error e) ↔ OverlongPosition key := by
  have hlen : (Text.chars key).length = key.length := List.length_map _
  rw [listPosition?, OverlongPosition, Numeral.read, hlen]
  by_cases hc : Numeral.isCanonical (Text.chars key) = true
  · by_cases hl : key.length ≤ Numeral.maxDigits
    · simp [hc, hl, Functor.map, Except.map, Nat.not_lt.mpr hl]
    · simp [hc, hl, Functor.map, Except.map, Nat.lt_of_not_le hl]
  · simp [hc]

/-! ### Where things are looked at -/

namespace Look

variable {α : Type} {look : Look α}

/-- Only a list can refuse a key. -/
theorem exists_under_error_iff {a : α} {key : Text} :
    (∃ e, look.under a key = .error e) ↔ (∃ xs, look.view a = .list xs) ∧ OverlongPosition key := by
  unfold Look.under
  cases look.view a with
  | scalar x => simp
  | obj ms => simp
  | list xs =>
    rw [← exists_listPosition_error_iff]
    cases listPosition? key with
    | error e => simp [bind, Except.bind]
    | ok position => cases position <;> simp [bind, Except.bind, pure, Except.pure]

/-- The things that a segment goes on from, of what stands under its key. -/
def reached (look : Look α) (s : Segment) (found : Option α) : List α :=
  match s.access with
  | .plain => found.toList
  | .index position => (look.pick position found).toList
  | .wildcard => look.fanOut found

/-- The path leads from a thing to a list in which a key cannot be looked up. -/
inductive Blocked (look : Look α) : α → Path → Prop where
  | here {a : α} {xs : List α} {s : Segment} {rest : Path} (list : look.view a = .list xs)
      (key : OverlongPosition s.key) : Blocked look a (s :: rest)
  | later {a b : α} {found : Option α} {s : Segment} {rest : Path}
      (under : look.under a s.key = .ok found) (reached : b ∈ look.reached s found)
      (blocked : Blocked look b rest) : Blocked look a (s :: rest)

theorem blocked_cons_iff {a : α} {s : Segment} {rest : Path} :
    look.Blocked a (s :: rest) ↔ (∃ e, look.under a s.key = .error e) ∨
      ∃ found, look.under a s.key = .ok found ∧ ∃ b ∈ look.reached s found,
        look.Blocked b rest := by
  rw [exists_under_error_iff]
  constructor
  · intro h
    cases h with
    | here list key => exact .inl ⟨⟨_, list⟩, key⟩
    | later under reached blocked => exact .inr ⟨_, under, _, reached, blocked⟩
  · rintro (⟨⟨xs, list⟩, key⟩ | ⟨found, under, w, reached, blocked⟩)
    · exact .here list key
    · exact .later under reached blocked

theorem not_blocked_nil (a : α) : ¬ look.Blocked a [] :=
  fun h => nomatch h

theorem Blocked.not_isNull {a : α} {p : Path} (h : look.Blocked a p) : look.isNull a = false := by
  have hscalar : ∀ x, look.view a ≠ .scalar x := by
    intro x hview
    cases h with
    | here list _ => cases hview.symm.trans list
    | @later _ _ found s _ under reached _ =>
      have hnone : found = none := by
        rw [Look.under, hview] at under
        cases under
        rfl
      subst hnone
      unfold Look.reached at reached
      split at reached <;> cases reached
  unfold Look.isNull
  split
  · next hview => exact absurd hview (hscalar _)
  · rfl

theorem exists_spread_error_iff {s : Segment} {a : α} :
    (∃ e, look.spread s a = .error e) ↔ ∃ e, look.under a s.key = .error e := by
  unfold Look.spread
  by_cases hnull : look.isNull a = true
  · have hview : look.view a = .scalar .null := by
      unfold Look.isNull at hnull
      split at hnull
      · assumption
      · cases hnull
    simp [hnull, Look.under, hview]
  · rw [if_neg hnull, Traverse.exists_bind_error_iff]
    cases s.access <;> simp [pure, Except.pure]

section

variable (hscalar : look.view (look.scalar .null) = .scalar .null)

include hscalar

/-- A thing is collected as what it reaches; `null` stands in for what is not there. -/
theorem mem_spread_iff {s : Segment} {a b : α} {collected : List α} (hb : look.isNull b = false)
    (h : look.spread s a = .ok collected) :
    b ∈ collected ↔ ∃ found, look.under a s.key = .ok found ∧ b ∈ look.reached s found := by
  have hne : b ≠ look.scalar .null := by
    rintro rfl
    rw [Look.isNull, hscalar] at hb
    cases hb
  have hgetD : ∀ found : Option α, b = found.getD (look.scalar .null) ↔ found = some b :=
    fun found => by cases found <;> simp [hne, eq_comm]
  unfold Look.spread at h
  split at h
  · next hnull =>
    have hview : look.view a = .scalar .null := by
      unfold Look.isNull at hnull
      split at hnull
      · assumption
      · cases hnull
    cases h
    have hno : b ∉ look.reached s none := by
      unfold Look.reached
      cases s.access <;> exact List.not_mem_nil
    simp [Look.under, hview, hno]
  · obtain ⟨found, hu, hc⟩ := Traverse.bind_eq_ok_iff.mp h
    rw [hu]
    unfold Look.reached
    cases ha : s.access <;> rw [ha] at hc <;> cases hc <;> simp [hgetD]

/-- A collection stops the reading if one of its things does. -/
theorem exists_readAll_error_iff {p : Path} {items : List α} :
    (∃ e, look.readAll items p = .error e) ↔ ∃ item ∈ items, look.Blocked item p := by
  induction p generalizing items with
  | nil => simp [Look.readAll, not_blocked_nil]
  | cons s rest ih =>
    rw [Look.readAll, Traverse.exists_bind_error_iff, Traverse.exists_mapM_error_iff]
    simp only [exists_spread_error_iff, blocked_cons_iff, ih]
    constructor
    · rintro (⟨item, hi, he⟩ | ⟨collected, hc, w, hw, hb⟩)
      · exact ⟨item, hi, .inl he⟩
      · obtain ⟨part, hpart, hwp⟩ := List.mem_flatten.mp hw
        obtain ⟨item, hi, hs⟩ := (Traverse.mem_iff_of_mapM_eq_ok hc).mp hpart
        obtain ⟨found, hu, hr⟩ := (mem_spread_iff hscalar hb.not_isNull hs).mp hwp
        exact ⟨item, hi, .inr ⟨found, hu, w, hr, hb⟩⟩
    · rintro ⟨item, hi, he | ⟨found, hu, w, hr, hb⟩⟩
      · exact .inl ⟨item, hi, he⟩
      -- Another thing may stop the step before this one is followed.
      · by_cases hstop : ∃ other ∈ items, ∃ e, look.under other s.key = .error e
        · exact .inl hstop
        · obtain ⟨collected, hc⟩ : ∃ collected, items.mapM (look.spread s) = .ok collected := by
            rw [Traverse.exists_ok_iff, Traverse.exists_mapM_error_iff]
            simpa only [exists_spread_error_iff] using hstop
          obtain ⟨part, hpart, hs⟩ := Traverse.exists_of_mem_of_mapM_eq_ok hc hi
          have hwp : w ∈ part := (mem_spread_iff hscalar hb.not_isNull hs).mpr ⟨found, hu, hr⟩
          exact .inr ⟨collected, hc, w, List.mem_flatten.mpr ⟨part, hpart, hwp⟩, hb⟩

theorem exists_readFrom_error_iff {p : Path} {current : Option α} :
    (∃ e, look.readFrom current p = .error e) ↔ ∃ a, current = some a ∧ look.Blocked a p := by
  induction p generalizing current with
  | nil => simp [Look.readFrom, not_blocked_nil]
  | cons s rest ih =>
    cases current with
    | none => simp [Look.readFrom]
    | some a =>
      by_cases hnull : look.isNull a = true
      · have hno : ¬ look.Blocked a (s :: rest) := fun h => by
          rw [h.not_isNull] at hnull
          cases hnull
        simp [Look.readFrom, hnull, hno]
      rw [Look.readFrom, if_neg hnull, Traverse.exists_bind_error_iff]
      simp only [Option.some.injEq, exists_eq_left', blocked_cons_iff]
      refine or_congr .rfl (exists_congr fun found => and_congr .rfl ?_)
      unfold Look.reached
      cases s.access with
      | plain => simp [ih]
      | index position => simp [ih]
      | wildcard =>
        rw [Traverse.exists_bind_error_iff, exists_readAll_error_iff hscalar]
        simp [pure, Except.pure]

end

/-- What stops a reading of a text from a root. -/
def Stops (look : Look α) (root : α) (text : Text) : Prop :=
  (∃ piece ∈ Path.pieces text, Segment.Overlong piece) ∨
    ∃ p, Path.ofText text = .ok p ∧ look.Blocked root p

/-- The empty text stops no reading. -/
theorem not_stops_nil (root : α) : ¬ look.Stops root [] := by
  rintro (⟨piece, hp, ho⟩ | ⟨p, hp, hb⟩)
  · obtain ⟨e, he⟩ := Path.exists_ofText_error_iff.mpr ⟨piece, hp, ho⟩
    cases he
  · have hp' : Path.ofText [] = .ok [{ key := [] }] := rfl
    cases hp'.symm.trans hp
    cases hb with
    | here list key => exact nomatch key.1
    | later _ _ blocked => exact not_blocked_nil _ blocked

theorem exists_readText_error_iff (hscalar : look.view (look.scalar .null) = .scalar .null)
    {root : α} {text : Text} :
    (∃ e, look.readText root text = .error e) ↔ look.Stops root text := by
  unfold Look.readText
  split
  · next h =>
    subst h
    simp [not_stops_nil]
  · rw [Traverse.exists_bind_error_iff, Path.exists_ofText_error_iff]
    simp only [exists_readFrom_error_iff hscalar, Option.some.injEq, exists_eq_left']
    rfl

end Look

/-! ### Values -/

/-- The values that a segment goes on from, of what stands under its key. -/
def Segment.reached (s : Segment) (found : Option Value) : List Value :=
  match s.access with
  | .plain => found.toList
  | .index position => (pick position found).toList
  | .wildcard => fanOut found

theorem reached_value (s : Segment) (found : Option Value) :
    Value.look.reached s found = s.reached found := by
  unfold Look.reached Segment.reached
  simp only [pick_value, fanOut_value]

namespace Path

/-- The path leads from the value to a list in which a key cannot be looked up. -/
inductive Blocked : Value → Path → Prop where
  | here {xs : List Value} {s : Segment} {rest : Path} (key : OverlongPosition s.key) :
      Blocked (.list xs) (s :: rest)
  | later {v w : Value} {found : Option Value} {s : Segment} {rest : Path}
      (under : v.under s.key = .ok found) (reached : w ∈ s.reached found)
      (blocked : Blocked w rest) : Blocked v (s :: rest)

theorem blocked_value {v : Value} {p : Path} : Value.look.Blocked v p ↔ Blocked v p := by
  constructor
  · intro h
    induction h with
    | @here v xs s rest list key =>
      cases v with
      | list ys => exact .here key
      | _ => cases list
    | later under reached _ ih =>
      rw [under_value] at under
      rw [reached_value] at reached
      exact .later under reached ih
  · intro h
    induction h with
    | here key => exact .here rfl key
    | later under reached _ ih =>
      refine .later (by rwa [under_value]) ?_ ih
      rwa [reached_value]

theorem exists_readFrom_error_iff {p : Path} {current : Option Value} :
    (∃ e, readFrom current p = .error e) ↔ ∃ v, current = some v ∧ Blocked v p := by
  rw [← readFrom_value, Traverse.exists_bind_error_iff, Look.exists_readFrom_error_iff rfl]
  simp [blocked_value, pure, Except.pure]

/-- What stops a reading of a text from a root. -/
def Stops (root : Value) (text : Text) : Prop :=
  (∃ piece ∈ pieces text, Segment.Overlong piece) ∨
    ∃ p, ofText text = .ok p ∧ Blocked root p

theorem stops_value {root : Value} {text : Text} :
    Value.look.Stops root text ↔ Stops root text := by
  simp only [Look.Stops, Stops, blocked_value]

theorem exists_readText_error_iff {root : Value} {text : Text} :
    (∃ e, readText root text = .error e) ↔ Stops root text := by
  rw [← readText_value, Traverse.exists_bind_error_iff, Look.exists_readText_error_iff rfl,
    stops_value]
  simp [pure, Except.pure]

/-! ### Short pieces -/

theorem Blocked.exists_overlongPosition {v : Value} {p : Path} (h : Blocked v p) :
    ∃ s ∈ p, OverlongPosition s.key := by
  induction h with
  | @here _ s _ key => exact ⟨s, List.mem_cons_self, key⟩
  | later _ _ _ ih =>
    obtain ⟨s, hs, hkey⟩ := ih
    exact ⟨s, List.mem_cons_of_mem _ hs, hkey⟩

/-- Only a piece of more symbols than digits are read can stop a reading. -/
theorem Stops.exists_long {root : Value} {text : Text} (h : Stops root text) :
    ∃ piece ∈ pieces text, Numeral.maxDigits < piece.length := by
  rcases h with ⟨piece, hp, ho⟩ | ⟨p, hp, hb⟩
  · exact ⟨piece, hp, ho.length_lt⟩
  · obtain ⟨s, hs, -, hlong⟩ := hb.exists_overlongPosition
    obtain ⟨piece, hpiece, hread⟩ := (Traverse.mem_iff_of_mapM_eq_ok hp).mp hs
    exact ⟨piece, hpiece, Nat.lt_of_lt_of_le hlong (Segment.length_key_le hread)⟩

end Path

/-- A position in a list with one digit more than is read. -/
def overlongPosition : Text :=
  Text.ofChars (List.replicate (Numeral.maxDigits + 1) '1')

theorem overlongPosition_overlongPosition : OverlongPosition overlongPosition := by
  have hlen : overlongPosition.length = Numeral.maxDigits + 1 := by
    simp [overlongPosition, Text.ofChars]
  refine ⟨?_, by omega⟩
  rw [overlongPosition, Text.chars_ofChars, List.replicate_succ]
  change List.all ('1' :: List.replicate Numeral.maxDigits '1') Char.isDigit = true
  simp

theorem Path.ofText_overlongPosition :
    ofText overlongPosition = .ok [{ key := overlongPosition }] := by
  have hpieces : pieces overlongPosition = [overlongPosition] := by
    refine List.splitOn_eq_singleton fun h => ?_
    simp [overlongPosition, Text.ofChars] at h
  have hplain : Segment.ofText overlongPosition = .ok { key := overlongPosition } :=
    Segment.ofText_of_not_mem fun h => by simp [overlongPosition, Text.ofChars] at h
  rw [ofText, hpieces, Traverse.mapM_eq_ok_iff, List.map_singleton, hplain]
  rfl

end Reshape

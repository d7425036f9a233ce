import Mathlib.Logic.Function.Iterate
import Reshape.Profile
import Reshape.Proofs.Number.Rounding

/-!
# Closing an operation

Whatever state a profile is in, an operation that is opened can be closed and is on record then,
once, if it has a name and its records a rate and not too many digits (`Profile.stop_start_iff`).
Between opening and closing nothing of the state before has a say (`Profile.Busy`). An operation
without a name stays open and is never on record, and one with too many digits is on record but
stays open (`Profile.stop_start_nameless`).
-/

namespace Reshape

namespace Profile

/-- No operation is open. -/
structure Idle (p : Profile) : Prop where
  current : p.current = none
  since : p.since = none

/-- An operation is open since a reading of the clock, and these are closed. -/
structure Busy (p : Profile) (now : Int) (name : Text) (inputSize : Int)
    (history : List ProfileEntry) : Prop where
  current : p.current = some name
  since : p.since = some now
  inputSize : p.inputSize = inputSize
  history : p.history = history

/-- The profile is idle again, with one entry more: there is nothing to close. -/
structure Counted (p : Profile) (entry : ProfileEntry) (closed : Profile) : Prop where
  history : closed.history = p.history ++ [entry]
  idle : closed.Idle
  stop : ∀ now outputSize records,
    closed.stop now outputSize records = (.error .nothingOpen, closed)

/-- What can be closed with so many records at a reading of the clock: they have a rate if time has
passed, and they can be noted down. -/
structure Closes (now later : Int) (name : Text) (records : Int) : Prop where
  named : name ≠ []
  rate : hasRate records ∨ later ≤ now
  digits : digitCount records ≤ Numeral.maxDigits

variable {p opened : Profile} {now : Int} {name : Text} {inputSize : Int}
    {history : List ProfileEntry}

/-! ### Between opening and closing -/

theorem busy_start (p : Profile) (now : Int) (name : Text) (inputSize : Int) :
    (p.start now name inputSize).Busy now name inputSize p.history :=
  ⟨rfl, rfl, rfl, rfl⟩

theorem Busy.sample (h : p.Busy now name inputSize history) :
    p.sample.Busy now name inputSize history := by
  unfold Profile.sample
  split
  · exact ⟨h.current, h.since, h.inputSize, h.history⟩
  · exact h

theorem Busy.iterate_sample (h : p.Busy now name inputSize history) (samples : Nat) :
    (Profile.sample^[samples] p).Busy now name inputSize history := by
  induction samples with
  | zero => exact h
  | succ samples ih =>
    rw [Function.iterate_succ_apply']
    exact ih.sample

/-! ### Closing -/

theorem Idle.stop (h : p.Idle) (now outputSize records : Int) :
    p.stop now outputSize records = (.error .nothingOpen, p) := by
  have hnone : p.closable? = none := by
    rw [closable?, active?, h.current]
    rfl
  rw [Profile.stop, hnone]

theorem Busy.active? (h : p.Busy now name inputSize history) :
    p.active? = if name = [] then none else some name := by
  rw [Profile.active?, h.current, Option.filter_some]
  by_cases hname : name = []
  · rw [if_pos hname, if_neg (by simpa using hname)]
  · rw [if_neg hname, if_pos (by simpa using hname)]

theorem Busy.closable? (h : p.Busy now name inputSize history) (hnow : now ≠ 0) :
    p.closable? = if name = [] then none else some (name, now) := by
  have hsince : p.since.filter (· ≠ 0) = some now := by
    rw [h.since, Option.filter_some, if_pos (by simpa using hnow)]
  rw [Profile.closable?, h.active?, hsince]
  by_cases hname : name = []
  · rw [if_pos hname, if_pos hname]
  · rw [if_neg hname, if_neg hname]

theorem Busy.counted (h : opened.Busy now name inputSize p.history) (elapsed : Int)
    (entry : ProfileEntry) : p.Counted entry (opened.count elapsed entry).idle where
  history := congrArg (· ++ [entry]) h.history
  idle := ⟨rfl, rfl⟩
  stop := Idle.stop ⟨rfl, rfl⟩

theorem Busy.busy_count (h : p.Busy now name inputSize history) (elapsed : Int)
    (entry : ProfileEntry) :
    (p.count elapsed entry).Busy now name inputSize (history ++ [entry]) :=
  ⟨h.current, h.since, h.inputSize, congrArg (· ++ [entry]) h.history⟩

theorem Busy.not_idle (h : p.Busy now name inputSize history) : ¬ p.Idle := by
  intro hidle
  have hcurrent := hidle.current
  rw [h.current] at hcurrent
  cases hcurrent

theorem Busy.stop_of_nameless (h : p.Busy now [] inputSize history) (hnow : now ≠ 0)
    (later outputSize records : Int) :
    p.stop later outputSize records = (.error .nothingOpen, p) := by
  rw [Profile.stop, h.closable? hnow, if_pos rfl]

theorem Busy.stop_of_named (h : p.Busy now name inputSize history) (hnow : now ≠ 0)
    (hname : name ≠ []) (later outputSize records : Int) :
    p.stop later outputSize records =
      let counted := p.count (later - now) { name, inputSize, outputSize, records }
      if now < later ∧ ¬ hasRate records then (.error .tooManyRecords, p)
      else if Numeral.maxDigits < digitCount records then (.error .unshown, counted)
      else (.ok { name, inputSize, outputSize, records }, counted.idle) := by
  obtain rfl := h.inputSize
  rw [Profile.stop, h.closable? hnow, if_neg hname]

/-- An operation is closed, with its entry, or it stays open. -/
theorem Busy.stop_cases (h : p.Busy now name inputSize history) (hnow : now ≠ 0)
    (later outputSize records : Int) :
    (Closes now later name records ∧ ∃ elapsed, p.stop later outputSize records =
      (.ok { name, inputSize, outputSize, records },
        (p.count elapsed { name, inputSize, outputSize, records }).idle)) ∨
    (¬ Closes now later name records ∧ ∃ e left history',
      p.stop later outputSize records = (.error e, left) ∧
        left.Busy now name inputSize history') := by
  by_cases hname : name = []
  · subst hname
    exact .inr ⟨fun hcloses => hcloses.named rfl, _, p, history,
      h.stop_of_nameless hnow later outputSize records, h⟩
  · rw [h.stop_of_named hnow hname]
    dsimp only
    split
    · next hrate =>
      refine .inr ⟨fun hcloses => ?_, _, p, history, rfl, h⟩
      rcases hcloses.rate with hrate' | hle
      · exact hrate.2 hrate'
      · omega
    · next hrate =>
      split
      · next hdigits =>
        have hstill := h.busy_count (later - now) { name, inputSize, outputSize, records }
        exact .inr ⟨fun hcloses => Nat.not_lt.mpr hcloses.digits hdigits, _, _, _, rfl, hstill⟩
      · next hdigits =>
        refine .inl ⟨⟨hname, ?_, Nat.not_lt.mp hdigits⟩, _, rfl⟩
        by_contra hneither
        rw [not_or] at hneither
        exact hrate ⟨by omega, hneither.1⟩

/-- A double is near the length of any list. -/
theorem hasRate_of_lt {n : Nat} (h : n < 2 ^ 63) : hasRate n = true := by
  have hlt : ((n : ℚ) / ((1 : Nat) : ℚ)) < 2 ^ (1023 : Int) := by
    rw [Nat.cast_one, div_one]
    exact_mod_cast h.trans (by decide +kernel : 2 ^ 63 < 2 ^ 1023)
  have hfinite := Double.nearest_ne_infinity hlt false
  rw [hasRate, Int.natAbs_natCast, Double.ofQuotient_eq_nearest false n Nat.one_pos]
  generalize Double.nearest false ((n : ℚ) / ((1 : Nat) : ℚ)) = x at hfinite
  cases x with
  | infinity negative => exact absurd rfl (hfinite negative)
  | _ => rfl

theorem digitCount_le_of_lt {n : Nat} (h : n < 2 ^ 63) : digitCount n ≤ Numeral.maxDigits := by
  rw [digitCount, Int.natAbs_natCast]
  refine Nat.le_trans
    ((Nat.length_toDigits_le_iff (k := 19) (by decide) (by decide)).mpr ?_) (by decide)
  exact h.trans (by decide)

/-- Nothing is wrong with as many records as a list can have. -/
theorem closes_of_lt (now later : Int) (hname : name ≠ []) (records : Nat) (h : records < 2 ^ 63) :
    Closes now later name records :=
  ⟨hname, .inl (hasRate_of_lt h), digitCount_le_of_lt h⟩

theorem Busy.leave_of_nameless (h : p.Busy now [] inputSize history) (later : Int) :
    p.leave later = (.ok (), p) := by
  rw [Profile.leave, h.active?]
  rfl

theorem Busy.leave_of_named (h : p.Busy now name inputSize history) (hnow : now ≠ 0)
    (hname : name ≠ []) (later : Int) :
    ∃ elapsed, p.leave later =
      (.ok (), (p.count elapsed { name, inputSize, outputSize := 0, records := 0 }).idle) := by
  rcases h.stop_cases hnow later 0 0 with ⟨-, elapsed, hstop⟩ | ⟨hcloses, -⟩
  · refine ⟨elapsed, ?_⟩
    rw [Profile.leave, h.active?, if_neg hname, hstop]
    rfl
  · exact absurd (closes_of_lt now later hname 0 (by decide)) hcloses

/-! ### Opened and closed -/

/-- From whatever state, and however often it is sampled. -/
theorem stop_start_iff (p : Profile) (hnow : now ≠ 0) (name : Text)
    (inputSize later outputSize records : Int) (samples : Nat) :
    ((∃ closed, (sample^[samples] (p.start now name inputSize)).stop later outputSize records =
          (.ok { name, inputSize, outputSize, records }, closed) ∧
        p.Counted { name, inputSize, outputSize, records } closed) ↔
      Closes now later name records) ∧
    ∀ {ε α : Type} (result : Except ε α),
      let left := p.within now name inputSize
        (fun opened => (result, sample^[samples] opened)) later
      left.1 = result.mapError .inr ∧
        p.Counted { name, inputSize, outputSize := 0, records := 0 } left.2 ↔ name ≠ [] := by
  -- Sampling keeps what opening gives, so nothing of the state before has a say in the closing.
  have hbusy := (p.busy_start now name inputSize).iterate_sample samples
  refine ⟨?_, fun result => ?_⟩
  · rcases hbusy.stop_cases hnow later outputSize records with
      ⟨hcloses, elapsed, hstop⟩ | ⟨hcloses, e, left, _, hstop, -⟩
    · exact iff_of_true ⟨_, hstop, hbusy.counted elapsed _⟩ hcloses
    · refine iff_of_false ?_ hcloses
      rintro ⟨closed, hclosed, -⟩
      rw [hstop] at hclosed
      cases hclosed
  · by_cases hname : name = []
    · subst hname
      refine iff_of_false ?_ (fun h => h rfl)
      rintro ⟨-, hcounted⟩
      simp only [within, hbusy.leave_of_nameless] at hcounted
      exact hbusy.not_idle hcounted.idle
    · obtain ⟨elapsed, hleave⟩ := hbusy.leave_of_named hnow hname later
      refine iff_of_true ?_ hname
      simp only [within, hleave, true_and]
      exact hbusy.counted elapsed _

/-- Over an operation that is open, closed by hand and with a block that is stopped. -/
theorem stop_start_over_open :
    let p := ({} : Profile).start 3 "first" 1
    let opened := sample (sample (p.start 7 "second" 5))
    let stopped : Except String Unit := .error "stopped"
    let left := p.within 7 "third" 5 (fun opened => (stopped, opened)) 9
    (∃ closed, opened.stop 9 2 4 = (.ok ⟨"second", 5, 2, 4⟩, closed) ∧
      p.Counted ⟨"second", 5, 2, 4⟩ closed) ∧
    (7 : Int) ≠ 0 ∧ left.1 = .error (.inr "stopped") ∧ p.Counted ⟨"third", 5, 0, 0⟩ left.2 := by
  intro p opened stopped left
  have hnow : (7 : Int) ≠ 0 := by decide
  have hcloses : Closes 7 9 "second" 4 := ⟨nofun, .inl rfl, by decide⟩
  have hstop := (stop_start_iff p hnow "second" 5 9 2 4 2).1.mpr hcloses
  have hleft := ((stop_start_iff p hnow "third" 5 9 2 4 0).2 stopped).mpr nofun
  exact ⟨hstop, hnow, hleft⟩

/-- An operation without a name stays open and is never on record, nor is that of a block. One with
more records than have a rate stays open once time has passed, and one whose records have too many
digits stays open although it is on record. -/
theorem stop_start_nameless :
    let p : Profile := {}
    let opened := p.start 7 [] 1
    let returned : Except String Unit := .ok ()
    let left := p.within 7 [] 1 (fun opened => (returned, opened)) 9
    let named := p.start 7 "a" 1
    let counted := named.stop 7 2 (scale 10 1 4300)
    opened.stop 9 2 3 = (.error .nothingOpen, opened) ∧ opened.current = some [] ∧
    left.2.history = [] ∧ ¬ left.2.Idle ∧
    named.stop 9 2 (scale 10 1 400) = (.error .tooManyRecords, named) ∧
    counted.1 = .error .unshown ∧ counted.2.history.length = 1 ∧ ¬ counted.2.Idle := by
  intro p opened returned left named
  have hnamed : named.Busy 7 "a" 1 [] := p.busy_start 7 "a" 1
  refine ⟨rfl, rfl, rfl, ?_, ?_, ?_⟩
  · exact (p.busy_start 7 [] 1).not_idle
  · have hrate : (7 : Int) < 9 ∧ ¬ hasRate (scale 10 1 400) = true := by decide +kernel
    rw [hnamed.stop_of_named (by decide) (by decide)]
    exact if_pos hrate
  · have hdigits : Numeral.maxDigits < digitCount (scale 10 1 4300) := by decide +kernel
    have hstop := hnamed.stop_of_named (by decide) (by decide) 7 2 (scale 10 1 4300)
    dsimp only at hstop
    rw [if_neg (fun h => Int.lt_irrefl 7 h.1), if_pos hdigits] at hstop
    rw [hstop]
    refine ⟨rfl, rfl, fun hidle => ?_⟩
    have hcurrent := hidle.current
    cases hcurrent

end Profile

end Reshape

import Mathlib.Algebra.Ring.Int.Defs
import Reshape.Proofs.Profile
import Reshape.Proofs.Session.Outcome
import Reshape.Proofs.Session.Texts

/-!
# Accounts of a session

A session answers calls one after the other. With a profile, each call that gets as far as mapping
its input in a run leaves one entry, whether it returns or is stopped, and no other call leaves any
(`Session.Idle.answer`). So no operation is open between two calls, and the history is the list of
these entries in the order of the calls (`Session.profile_after`).
-/

namespace Reshape

namespace Session

/-- What can be asked of a session. Meanwhile values may be made and changed in any way. -/
inductive Call where
  | transform (input : Cell) (mapping : Value)
  | run (input : Cell) (mapping : Value)
  | runTexts (input mapping : Text)
  | close
  | meanwhile (store : Store)

/-- What is given for a call. -/
inductive Reply where
  | output (c : Cell)
  | report (r : Report)
  | done

def answer (s : Session) : Call → Except StepError Reply × Session
  | .transform input mapping => (s.transform input mapping).map (Except.map .output) id
  | .run input mapping => (s.run input mapping).map (Except.map .report) id
  | .runTexts input mapping => (s.runTexts input mapping).map (Except.map .report) id
  | .close => (.ok .done, s.close)
  | .meanwhile store => (.ok .done, { s with store })

/-- The session after some calls. -/
def after (s : Session) : List Call → Session
  | [] => s
  | call :: calls => (s.answer call).2.after calls

/-- A call, what it came to, and the values before and after it. -/
structure Turn where
  before : Store
  call : Call
  reply : Except StepError Reply
  after : Store

def turn (s : Session) (call : Call) : Turn where
  before := s.store
  call := call
  reply := (s.answer call).1
  after := (s.answer call).2.store

/-- Some calls, each with what it came to. -/
def transcript (s : Session) : List Call → List Turn
  | [] => []
  | call :: calls => s.turn call :: (s.answer call).2.transcript calls

/-! ### What is on record -/

/-- The input that a call has a run map by an object, and the values it is one of. -/
def Call.input? (before : Store) : Call → Option (Cell × Store)
  | .run input (.obj _) => some (input, before)
  | .runTexts input mapping =>
    match Json.decode input, Json.decode mapping with
    | .ok v, .ok (.obj _) => some (Reshape.load v before)
    | _, _ => none
  | _ => none

/-- The size of the output and the number of records that are counted: none of a run that is
stopped. -/
def counts (s : Store) (input : Cell) (after : Store) : Except StepError Reply → Nat × Nat
  | .ok (.report (.mapped output ..)) =>
    ((documentSize after output).toOption.getD 0, recordCount s input)
  | _ => (0, 0)

/-- The entry of a run on an input of this size. -/
def entry (s : Store) (input : Cell) (inputSize : Nat) (reply : Except StepError Reply)
    (after : Store) : ProfileEntry where
  name := operation
  inputSize := inputSize
  outputSize := (counts s input after reply).1
  records := (counts s input after reply).2

/-- The entry that a call leaves. A run takes the size of its input first, and is over if there is
none: such an input is not mapped. -/
def Turn.booked (t : Turn) : Option ProfileEntry :=
  match t.call.input? t.before with
  | none => none
  | some (input, s) =>
    match documentSize s input with
    | .error _ => none
    | .ok inputSize => some (entry s input inputSize t.reply t.after)

/-- The clock never reads zero, no operation is open, and these are closed. -/
structure Idle (s : Session) (history : List ProfileEntry) : Prop where
  clock : ∀ n, s.settings.clock n ≠ 0
  profile : ∃ p, s.profile = some p ∧ p.Idle ∧ p.history = history

/-- A run on an input of this size is open, and these are closed. -/
structure Busy (s : Session) (inputSize : Nat) (history : List ProfileEntry) : Prop where
  clock : ∀ n, s.settings.clock n ≠ 0
  profile : ∃ p now, s.profile = some p ∧ now ≠ 0 ∧ p.Busy now operation inputSize history

variable {s : Session} {history : List ProfileEntry} {inputSize : Nat}

theorem Idle.isSome_profile (h : s.Idle history) : s.profile.isSome = true := by
  obtain ⟨p, hp, -⟩ := h.profile
  rw [hp]
  rfl

theorem Busy.isSome_profile (h : s.Busy inputSize history) : s.profile.isSome = true := by
  obtain ⟨p, -, hp, -⟩ := h.profile
  rw [hp]
  rfl

theorem Idle.note (h : s.Idle history) (lines : Journal) : (s.note lines).Idle history :=
  ⟨h.clock, h.profile⟩

theorem Idle.withStore (h : s.Idle history) (store : Store) : { s with store }.Idle history :=
  ⟨h.clock, h.profile⟩

theorem Idle.map (h : s.Idle history) (mapping : Members) (input : Cell) :
    (s.map mapping input).2.Idle history :=
  ⟨h.clock, h.profile⟩

theorem Busy.map (h : s.Busy inputSize history) (mapping : Members) (input : Cell) :
    (s.map mapping input).2.Busy inputSize history :=
  ⟨h.clock, h.profile⟩

theorem Idle.start (h : s.Idle history) (inputSize : Nat) :
    (s.start inputSize).Busy inputSize history := by
  obtain ⟨p, hp, -, hhistory⟩ := h.profile
  have hbusy := p.busy_start s.now operation inputSize
  rw [hhistory] at hbusy
  unfold Session.start
  rw [hp]
  exact ⟨h.clock, p.start s.now operation inputSize, s.now, rfl, h.clock _, hbusy⟩

theorem Busy.sample (h : s.Busy inputSize history) : s.sample.Busy inputSize history := by
  obtain ⟨p, now, hp, hnow, hbusy⟩ := h.profile
  exact ⟨h.clock, p.sample, now, by rw [Session.sample, hp]; rfl, hnow, hbusy.sample⟩

/-- Whatever is given out, the run is closed and on record. -/
theorem Busy.finish (h : s.Busy inputSize history) (outputSize records : Nat) :
    (s.finish outputSize records).Idle
      (history ++ [{ name := operation, inputSize, outputSize, records }]) := by
  obtain ⟨p, now, hp, hnow, hbusy⟩ := h.profile
  have hclosable : p.closable? = some (operation, now) := by
    rw [hbusy.closable? hnow, if_neg (by decide)]
  unfold Session.finish
  rw [hp]
  dsimp only
  rw [hclosable, hbusy.inputSize, ← hbusy.history]
  exact ⟨h.clock, _, rfl, ⟨rfl, rfl⟩, rfl⟩

/-- Finishing is closing the operation of the profile, which nothing stops: a list has too few
records to have no rate or no text. -/
theorem profile_finish {p : Profile} {name : Text} {since : Int} (hp : s.profile = some p)
    (hclosable : p.closable? = some (name, since)) (hname : name ≠ []) (outputSize : Nat)
    {records : Nat}
    (h : records < 2 ^ 63) :
    ∃ closed, p.stop s.now outputSize records =
        (.ok { name, inputSize := p.inputSize, outputSize, records }, closed) ∧
      (s.finish outputSize records).profile = some closed := by
  have hcloses := Profile.closes_of_lt since s.now hname records h
  refine ⟨(p.count (s.now - since) { name, inputSize := p.inputSize, outputSize, records }).idle,
    ?_, ?_⟩
  · rw [Profile.stop, hclosable]
    dsimp only
    rw [if_neg fun hrate => hrate.2 (Profile.hasRate_of_lt h),
      if_neg (Nat.not_lt.mpr hcloses.digits)]
  · unfold Session.finish
    rw [hp]
    dsimp only
    rw [hclosable]
    rfl

/-! ### One call -/

theorem profiledSize_of_profile (hp : s.profile.isSome = true) (c : Cell) :
    s.profiledSize c = documentSize s.store c :=
  if_pos hp

/-- A run leaves one entry, unless its input has no size. -/
theorem Idle.run_obj (h : s.Idle history) (input : Cell) (mapping : Members) :
    let r := s.run input (.obj mapping)
    match documentSize s.store input with
    | .error _ => r.2.Idle history
    | .ok inputSize => r.2.Idle
      (history ++ [entry s.store input inputSize (r.1.map .report) r.2.store]) := by
  unfold run
  dsimp only
  rw [profiledSize_of_profile h.isSome_profile]
  cases documentSize s.store input with
  | error e => exact h
  | ok inputSize =>
    have hmapped := (h.start inputSize).map mapping input
    dsimp only
    generalize (s.start inputSize).map mapping input = r at hmapped ⊢
    obtain ⟨_ | mapped, s'⟩ := r
    · exact hmapped.finish 0 0
    · have hsampled := hmapped.sample
      dsimp only
      rw [profiledSize_of_profile hsampled.isSome_profile]
      cases hout : documentSize s'.sample.store mapped.output with
      | error e => exact hsampled.finish 0 0
      | ok outputSize =>
        let records := recordCount s.store input
        let reply : Except StepError Reply :=
          .ok (.report (.mapped mapped.output records mapped.warnings none))
        let after := (s'.sample.finish outputSize records).store
        have hafter : after = s'.sample.store :=
          (beside_finish s'.sample outputSize records).store
        have hcounts : counts s.store input after reply = (outputSize, records) := by
          rw [counts, hafter, hout]
          rfl
        have hentry : entry s.store input inputSize reply after =
            { name := operation, inputSize, outputSize, records } := by
          rw [entry, hcounts]
        have hfinished := hsampled.finish outputSize (recordCount s.store input)
        rw [← hentry] at hfinished
        exact hfinished.note _

/-- What a run leaves depends on the call only through the input that it maps. -/
theorem Idle.turn_of_input {t : Turn} {input : Cell} {mapping : Members} (h : s.Idle history)
    (hcall : t.call.input? t.before = some (input, s.store))
    (hreply : t.reply = (s.run input (.obj mapping)).1.map .report)
    (hafter : t.after = (s.run input (.obj mapping)).2.store) :
    (s.run input (.obj mapping)).2.Idle (history ++ t.booked.toList) := by
  have hrun := h.run_obj input mapping
  dsimp only at hrun
  rw [Turn.booked, hcall, hreply, hafter]
  dsimp only
  cases hsize : documentSize s.store input with
  | error e =>
    rw [hsize] at hrun
    simpa using hrun
  | ok inputSize =>
    rw [hsize] at hrun
    exact hrun

theorem Idle.turn_of_no_input {t : Turn} (h : s.Idle history)
    (hcall : t.call.input? t.before = none) :
    s.Idle (history ++ t.booked.toList) := by
  rw [Turn.booked, hcall]
  simpa using h

theorem Call.input?_runTexts {v : Value} {ms : Members} {input mapping : Text}
    (hv : Json.decode input = .ok v) (hms : Json.decode mapping = .ok (.obj ms)) (before : Store) :
    (Call.runTexts input mapping).input? before = some (Reshape.load v before) := by
  simp only [Call.input?, hv, hms]

theorem Call.input?_runTexts_eq_none {input mapping : Text}
    (h : ∀ v ms, Json.decode input = .ok v → Json.decode mapping ≠ .ok (.obj ms)) (before : Store) :
    (Call.runTexts input mapping).input? before = none := by
  simp only [Call.input?]

/-- Between two calls no operation is open, and each call adds the entry that it leaves. -/
theorem Idle.answer (h : s.Idle history) (call : Call) :
    (s.answer call).2.Idle (history ++ (s.turn call).booked.toList) := by
  cases call with
  | transform input mapping =>
    refine Idle.turn_of_no_input ?_ rfl
    cases mapping with
    | obj ms =>
      have hmapped := h.map ms input
      unfold Session.answer Session.transform
      dsimp only
      generalize s.map ms input = r at hmapped ⊢
      obtain ⟨_ | mapped, s'⟩ := r
      · exact hmapped
      · exact hmapped
    | _ => exact h
  | run input mapping =>
    cases mapping with
    | obj ms => exact h.turn_of_input rfl rfl rfl
    | _ => exact h.turn_of_no_input rfl
  | runTexts input mapping =>
    obtain ⟨v, ms, lines, hv, hms, hrun⟩ | ⟨message, lines, hnone, hrun⟩ :=
      runTexts_eq_run_or_refused s input mapping
    · have hloaded := (h.note lines).withStore (Reshape.load v s.store).2
      rw [Session.turn, Session.answer, hrun]
      exact hloaded.turn_of_input (Call.input?_runTexts hv hms _) rfl rfl
    · rw [Session.turn, Session.answer, hrun]
      exact (h.note lines).turn_of_no_input (Call.input?_runTexts_eq_none hnone _)
  | close => exact Idle.turn_of_no_input (s := s.close) ⟨h.clock, h.profile⟩ rfl
  | meanwhile store => exact (h.withStore store).turn_of_no_input rfl

/-! ### A whole session -/

theorem Idle.after (h : s.Idle history) (calls : List Call) :
    (s.after calls).Idle (history ++ (s.transcript calls).filterMap Turn.booked) := by
  induction calls generalizing s history with
  | nil => simpa [Session.after, transcript] using h
  | cons call calls ih =>
    have hcall := ih (h.answer call)
    rw [List.append_assoc] at hcall
    rw [transcript, List.filterMap_cons]
    cases hentry : (s.turn call).booked with
    | none => simpa [Session.after, hentry] using hcall
    | some e => simpa [Session.after, hentry] using hcall

theorem idle_of_open {settings : Settings} {workspace : Workspace}
    (hopen : open? settings workspace = some s) (hprofiling : settings.profiling = true)
    (hclock : ∀ n, settings.clock n ≠ 0) : s.Idle [] := by
  rw [open?, if_pos hprofiling] at hopen
  split at hopen
  · cases hopen
    exact ⟨hclock, {}, rfl, ⟨rfl, rfl⟩, rfl⟩
  · cases hopen

end Session

namespace Summary

theorem total_eq_sum (s : Summary) (count : ProfileEntry → Int) :
    s.total count = (s.operations.map count).sum := by
  unfold total
  rw [List.sum, List.foldr_map]

theorem totals?_eq (s : Summary) :
    s.totals? =
      if s.operations = [] then none
      else some
        { records := (s.operations.map (·.records)).sum
          input := (s.operations.map (·.inputSize)).sum
          output := (s.operations.map (·.outputSize)).sum } := by
  unfold totals? totalRecords totalInput totalOutput
  simp only [List.isEmpty_iff, total_eq_sum]

end Summary

namespace Session

/-- After any calls on a new session no operation is open, and the history has the entries that
the calls leave, in their order. The summary has the same entries and, if there are any, what they
add up to. -/
theorem profile_after {s : Session} {settings : Settings} {workspace : Workspace}
    (hopen : open? settings workspace = some s) (hprofiling : settings.profiling = true)
    (hclock : ∀ n, settings.clock n ≠ 0) (calls : List Call) :
    ∃ p summary, (s.after calls).profile = some p ∧ p.current = none ∧
      p.history = (s.transcript calls).filterMap Turn.booked ∧
      (s.after calls).summary = some summary ∧ summary.operations = p.history ∧
      summary.totals? =
        if p.history = [] then none
        else some
          { records := (p.history.map (·.records)).sum
            input := (p.history.map (·.inputSize)).sum
            output := (p.history.map (·.outputSize)).sum } := by
  obtain ⟨p, hp, hidle, hhistory⟩ := ((idle_of_open hopen hprofiling hclock).after calls).profile
  have hsummary : (s.after calls).summary = some (Summary.ofProfile p) := by
    rw [summary, hp, Option.map_some]
  exact ⟨p, .ofProfile p, hp, hidle.current, hhistory, hsummary, rfl, Summary.totals?_eq _⟩

/-- A run that returns, a refused one, one that is aborted, and texts that hold a lone half. -/
theorem profile_after_calls :
    let abort : Registered := .function fun _ _ s => (.aborted, s)
    let settings : Settings := { profiling := true, registry := .ofList [("abort", abort)] }
    let workspace : Workspace := { tree := {}, home := [] }
    let s : Session := { settings, pool := false, profile := some {}, workspace }
    let input := Reshape.load (.list [.obj [("p", .int 1)], .null]) {}
    let calls : List Call :=
      [.meanwhile input.2, .run input.1 (.obj [("t", .str "p")]), .run input.1 .null,
        .run (.scalar .null) (.obj [("t", .obj [("$transform", .str "abort")])]),
        .transform (.scalar .null) (.obj []),
        .runTexts "\x7b\"p\": \"\\ud800\"\x7d" "\x7b\x7d", .close]
    ∃ p summary, open? settings workspace = some s ∧ settings.profiling = true ∧
      (∀ n, settings.clock n ≠ 0) ∧ (s.after calls).profile = some p ∧ p.current = none ∧
      p.history =
        [{ name := "transform", inputSize := 16, outputSize := 14, records := 2 },
          { name := "transform", inputSize := 4, outputSize := 0, records := 0 },
          { name := "transform", inputSize := 0, outputSize := 2, records := 1 }] ∧
      (s.after calls).summary = some summary ∧
      summary.totals? = some { records := 3, input := 20, output := 16 } := by
  intro abort settings workspace s input calls
  have hopen : open? settings workspace = some s := rfl
  have hclock : ∀ n, settings.clock n ≠ 0 := fun n (h : (n : Int) + 1 = 0) => by omega
  obtain ⟨p, summary, hp, hcurrent, hhistory, hsummary, -, htotals⟩ :=
    profile_after hopen rfl hclock calls
  have hentries : (s.transcript calls).filterMap Turn.booked =
      [{ name := "transform", inputSize := 16, outputSize := 14, records := 2 },
        { name := "transform", inputSize := 4, outputSize := 0, records := 0 },
        { name := "transform", inputSize := 0, outputSize := 2, records := 1 }] := by
    decide +kernel
  rw [hentries] at hhistory
  rw [hhistory] at htotals
  exact ⟨p, summary, hopen, rfl, hclock, hp, hcurrent, hhistory, hsummary, htotals⟩

/-- An input without a size is not mapped. -/
theorem booked_turn_run (s : Session) {input : Cell}
    (h : ∀ n, documentSize s.store input ≠ .ok n) (mapping : Members) :
    (s.turn (.run input (.obj mapping))).booked = none := by
  have hinput :
    (s.turn (.run input (.obj mapping))).call.input? s.store = some (input, s.store) := rfl
  have hbefore : (s.turn (.run input (.obj mapping))).before = s.store := rfl
  rw [Turn.booked, hbefore, hinput]
  dsimp only
  cases hsize : documentSize s.store input with
  | error e => rfl
  | ok n => exact absurd hsize (h n)

/-- There is nothing to add up after a refused mapping, nor after an input that nests too deep to
be mapped. -/
theorem totals?_after_refusal :
    let workspace : Workspace := { tree := {}, home := [] }
    let settings : Settings := { profiling := true }
    let s : Session := { settings, pool := false, profile := some {}, workspace }
    let deep := Reshape.load ((List.replicate (Json.nestingLimit + 1) ()).foldr
      (fun _ w => .obj [("a", w)]) (.str "x")) {}
    open? settings workspace = some s ∧
      (s.after [.run (.scalar .null) .null]).summary = some { operations := [] } ∧
      (s.after [.meanwhile deep.2, .run deep.1 (.obj [])]).summary = some { operations := [] } ∧
      Summary.totals? { operations := [] } = none := by
  intro workspace settings s deep
  have hclock : ∀ n, settings.clock n ≠ 0 := fun n (h : (n : Int) + 1 = 0) => by omega
  have hopen : open? settings workspace = some s := rfl
  refine ⟨hopen, rfl, ?_, rfl⟩
  obtain ⟨p, hp, -, hhistory⟩ := ((idle_of_open hopen rfl hclock).after
    [.meanwhile deep.2, .run deep.1 (.obj [])]).profile
  have hsize : ∀ n, documentSize deep.2 deep.1 ≠ .ok n := fun n hn => by
    rw [documentSize_of_unfolds (shows_load _ {}).unfolds] at hn
    have hdepth :=
      (exists_drawingSize_iff (storable_nested (by decide) (.str (by decide)) _)).mp ⟨n, hn⟩
    rw [depth_nested] at hdepth
    exact absurd hdepth (by decide)
  clear_value deep
  have hnone :
    (s.transcript [.meanwhile deep.2, .run deep.1 (.obj [])]).filterMap Turn.booked = [] := by
    have hrun := booked_turn_run { s with store := deep.2 } hsize []
    rw [transcript, transcript, transcript, List.filterMap_cons_none rfl]
    exact List.filterMap_cons_none hrun
  rw [summary, hp, Option.map_some, Summary.ofProfile, hhistory, hnone]
  rfl

end Session

end Reshape

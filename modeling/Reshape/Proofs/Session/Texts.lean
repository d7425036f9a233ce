import Reshape.Proofs.Document
import Reshape.Session

/-!
# Runs on texts

A run on two texts is a run on the values that they hold. Where one of them holds none, or the
mapping is no object, the report has one error, and the first text is blamed before the second
(`Session.runTexts_cases`).
-/

namespace Reshape

namespace Report

def succeeded : Report → Bool
  | mapped .. => true
  | refused _ => false

def output? : Report → Option Cell
  | mapped output .. => some output
  | refused _ => none

def records : Report → Nat
  | mapped _ records .. => records
  | refused _ => 0

def errors : Report → List String
  | mapped .. => []
  | refused message => [message]

/-- Nothing was mapped, for one reason, which starts with these words. -/
structure Refuses (start : String) (report : Report) : Prop where
  succeeded : report.succeeded = false
  output? : report.output? = none
  warnings : report.warnings = []
  records : report.records = 0
  errors : ∃ rest, report.errors = [start ++ rest]

theorem refuses_refused (start rest : String) : Refuses start (.refused (start ++ rest)) where
  succeeded := rfl
  output? := rfl
  warnings := rfl
  records := rfl
  errors := ⟨rest, rfl⟩

end Report

namespace DocumentError

theorem message_unreadable (role : Role) (complaint : Complaint) :
    (unreadable role [complaint]).message =
      s!"Invalid JSON {role.label}: " ++ complaint.located := by
  unfold message
  simp only [List.map_cons, List.map_nil, String.intercalate_singleton]

theorem message_misshapen (complaint : Complaint) :
    (misshapen [complaint]).message = "Invalid mapping: " ++ complaint.message := by
  unfold message
  simp only [List.map_cons, List.map_nil, String.intercalate_singleton]

end DocumentError

namespace Session

/-! ### The journal -/

/-- Two sessions that differ in what was noted down, if in anything. -/
def ButJournal (s s' : Session) : Prop :=
  ∃ journal, s' = { s with journal }

namespace ButJournal

variable {s s' : Session}

theorem note (h : s.ButJournal s') (lines lines' : Journal) :
    (s.note lines).ButJournal (s'.note lines') := by
  obtain ⟨journal, rfl⟩ := h
  exact ⟨journal ++ lines', rfl⟩

theorem start (h : s.ButJournal s') (inputSize : Nat) :
    (s.start inputSize).ButJournal (s'.start inputSize) := by
  obtain ⟨journal, rfl⟩ := h
  unfold Session.start
  dsimp only
  split
  · exact ⟨journal, rfl⟩
  · exact ⟨_, rfl⟩

theorem finish (h : s.ButJournal s') (outputSize records : Nat) :
    (s.finish outputSize records).ButJournal (s'.finish outputSize records) := by
  obtain ⟨journal, rfl⟩ := h
  unfold Session.finish
  dsimp only
  split
  · exact ⟨journal, rfl⟩
  · split
    · exact ⟨journal, rfl⟩
    · exact ⟨_, rfl⟩

theorem sample (h : s.ButJournal s') : s.sample.ButJournal s'.sample := by
  obtain ⟨journal, rfl⟩ := h
  exact ⟨journal, rfl⟩

theorem map (h : s.ButJournal s') (mapping : Members) (input : Cell) :
    (s'.map mapping input).1 = (s.map mapping input).1 ∧
      (s.map mapping input).2.ButJournal (s'.map mapping input).2 := by
  obtain ⟨journal, rfl⟩ := h
  exact ⟨rfl, _, rfl⟩

theorem profiledSize (h : s.ButJournal s') (c : Cell) : s'.profiledSize c = s.profiledSize c := by
  obtain ⟨journal, rfl⟩ := h
  rfl

/-- What was noted down has no part in what a run comes to. -/
theorem run (h : s.ButJournal s') (input : Cell) (mapping : Members) :
    (s'.run input (.obj mapping)).1 = (s.run input (.obj mapping)).1 ∧
      (s.run input (.obj mapping)).2.ButJournal (s'.run input (.obj mapping)).2 := by
  unfold Session.run
  dsimp only
  rw [h.profiledSize input]
  cases s.profiledSize input with
  | error e => exact ⟨rfl, h⟩
  | ok inputSize =>
    obtain ⟨hresult, hmapped⟩ := (h.start inputSize).map mapping input
    have hcount : recordCount s'.store input = recordCount s.store input := by
      obtain ⟨journal, rfl⟩ := h
      rfl
    dsimp only
    generalize (s.start inputSize).map mapping input = r,
      (s'.start inputSize).map mapping input = r' at hresult hmapped ⊢
    obtain ⟨_ | mapped, t⟩ := r <;> obtain ⟨_ | mapped', t'⟩ := r' <;> cases hresult
    · exact ⟨rfl, hmapped.finish 0 0⟩
    · dsimp only
      rw [hmapped.sample.profiledSize mapped.output, hcount]
      cases t.sample.profiledSize mapped.output with
      | error e => exact ⟨rfl, hmapped.sample.finish 0 0⟩
      | ok outputSize => exact ⟨rfl, (hmapped.sample.finish _ _).note _ _⟩

theorem load (h : s.ButJournal s') (v : Value) :
    (s'.load v).1 = (s.load v).1 ∧ (s.load v).2.ButJournal (s'.load v).2 := by
  obtain ⟨journal, rfl⟩ := h
  exact ⟨rfl, journal, rfl⟩

theorem store (h : s.ButJournal s') : s'.store = s.store := by
  obtain ⟨journal, rfl⟩ := h
  rfl

end ButJournal

/-! ### The texts -/

variable {s : Session} {input mapping : Text} {v w : Value}

/-- A run on the values that two texts hold. -/
def runValues (s : Session) (input : Value) (mapping : Members) :
    Except StepError Report × Session :=
  (s.load input).2.run (s.load input).1 (.obj mapping)

theorem note_note (s : Session) (before after : Journal) :
    (s.note before).note after = s.note (before ++ after) := by
  simp only [note, List.append_assoc]

/-- A run on two texts is a run on what they hold. If they do not hold an input and an object, it
leaves lines in the journal and nothing else. -/
theorem runTexts_eq_run_or_refused (s : Session) (input mapping : Text) :
    (∃ v ms lines, Json.decode input = .ok v ∧ Json.decode mapping = .ok (.obj ms) ∧
      s.runTexts input mapping = (s.note lines).runValues v ms) ∨
    ∃ message lines,
      (∀ v ms, Json.decode input = .ok v → Json.decode mapping ≠ .ok (.obj ms)) ∧
      s.runTexts input mapping = (.ok (.refused message), s.note lines) := by
  cases hread : readDocument .input input with
  | error e =>
    simp only [runTexts, hread]
    refine .inr ⟨_, _, fun v ms hv => ?_, rfl⟩
    rw [readDocument_of_decode_ok .input hv] at hread
    cases hread
  | ok v =>
    have hv := readDocument_eq_ok_iff.mp hread
    cases hmapping : readMapping (some s.settings.registry) mapping with
    | ok ms =>
      simp only [runTexts, hread, settings_note, hmapping, note_note]
      exact .inl ⟨v, ms, _, hv, (readMapping_eq_ok_iff _).mp hmapping, rfl⟩
    | error e =>
      have hno : ∀ v ms, Json.decode input = .ok v → Json.decode mapping ≠ .ok (.obj ms) :=
        fun v ms _ hms => by
          rw [readMapping_obj _ hms] at hmapping
          cases hmapping
      obtain ⟨d, rfl⟩ := exists_document_of_readMapping hmapping
      simp only [runTexts, hread, settings_note, hmapping, note_note]
      exact .inr ⟨_, _, hno, rfl⟩

theorem runTexts_of_input_error {e : Json.DecodeError} (h : Json.decode input = .error e) :
    ∃ report, (s.runTexts input mapping).1 = .ok report ∧
      report.Refuses "Invalid JSON input: " := by
  obtain ⟨complaint, hread⟩ := readDocument_of_decode_error .input h
  have hrun : (s.runTexts input mapping).1 =
      .ok (.refused (DocumentError.unreadable .input [complaint]).message) := by
    simp only [runTexts, hread]
  refine ⟨_, hrun, ?_⟩
  rw [DocumentError.message_unreadable]
  exact Report.refuses_refused _ _

/-- The mapping is read after the input was. -/
theorem runTexts_of_mapping_error (hv : Json.decode input = .ok v) {e : DocumentError}
    (h : readMapping (some s.settings.registry) mapping = .error (.document e)) :
    (s.runTexts input mapping).1 = .ok (.refused e.message) := by
  simp only [runTexts, readDocument_of_decode_ok .input hv, settings_note, h]

theorem runTexts_of_not_obj (hv : Json.decode input = .ok v) (hw : Json.decode mapping = .ok w)
    (hobj : ∀ ms, w ≠ .obj ms) :
    ∃ report, (s.runTexts input mapping).1 = .ok report ∧ report.Refuses "Invalid mapping: " := by
  refine ⟨_, runTexts_of_mapping_error hv (readMapping_of_not_obj _ hw hobj), ?_⟩
  rw [DocumentError.message_misshapen]
  exact Report.refuses_refused _ _

/-- What is noted down of the two texts has no part in what the run comes to. -/
theorem runTexts_of_obj {ms : Members} (hv : Json.decode input = .ok v)
    (hw : Json.decode mapping = .ok (.obj ms)) :
    (s.runTexts input mapping).1 = (s.runValues v ms).1 ∧
      (s.runTexts input mapping).2.store = (s.runValues v ms).2.store := by
  obtain ⟨v', ms', lines, hv', hms', hrun⟩ | ⟨-, -, hnone, -⟩ :=
    runTexts_eq_run_or_refused s input mapping
  · cases hv.symm.trans hv'
    cases hw.symm.trans hms'
    obtain ⟨hcell, hloaded⟩ := (show s.ButJournal (s.note lines) from ⟨_, rfl⟩).load v
    obtain ⟨hresult, hleft⟩ := hloaded.run (s.load v).1 ms
    rw [hrun, runValues, runValues, hcell]
    exact ⟨hresult, hleft.store⟩
  · exact (hnone v ms hv hw).elim

/-- A run on two texts, for every pair of them. -/
theorem runTexts_cases (s : Session) (input mapping : Text) :
    match Json.decode input, Json.decode mapping with
    | .error _, _ =>
      ∃ report, (s.runTexts input mapping).1 = .ok report ∧ report.Refuses "Invalid JSON input: "
    | .ok _, .error _ =>
      ∃ report, (s.runTexts input mapping).1 = .ok report ∧ report.Refuses "Invalid JSON mapping: "
    | .ok v, .ok (.obj ms) =>
      (s.runTexts input mapping).1 = (s.runValues v ms).1 ∧
        (s.runTexts input mapping).2.store = (s.runValues v ms).2.store
    | .ok _, .ok _ =>
      ∃ report, (s.runTexts input mapping).1 = .ok report ∧ report.Refuses "Invalid mapping: " := by
  split
  · next e _ he => exact runTexts_of_input_error he
  · next v e hv he =>
    obtain ⟨complaint, hread⟩ := readMapping_of_decode_error (some s.settings.registry) he
    refine ⟨_, runTexts_of_mapping_error hv hread, ?_⟩
    rw [DocumentError.message_unreadable]
    exact Report.refuses_refused _ _
  · next v ms hv hw => exact runTexts_of_obj hv hw
  · next v w hobj hv hw => exact runTexts_of_not_obj hv hw hobj

end Session

end Reshape

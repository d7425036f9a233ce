import Reshape.Proofs.Session.Outcome
import Reshape.Proofs.Session.Texts
import Reshape.Proofs.Storage.Remains

/-!
# Runs on files

A run on files reads both of them before it maps anything, and maps before it writes. As long as
no output has come of it, the workspace is as before; after that the file of the output is the only
one that changes, and directories that its name leads past are made (`Session.runFiles_leaves`). An
output that cannot be written to its end costs what the file held (`Session.runFiles_remains`).
-/

namespace Reshape

/-- A text is the document of a cell, which unfolds to the value that is printed. -/
def IsDocument (memory : Nat) (indent : Option Int) (s : Store) (c : Cell) (text : Text) : Prop :=
  ∃ v, s.Unfolds c v ∧ (Json.Layout.ofIndent memory indent).map (Json.print · v) = .ok text

/-- A text is how the document of a cell begins. A cell that unfolds to no value is drawn as far as
it goes. -/
structure BeginsDocument (memory : Nat) (indent : Option Int) (s : Store) (c : Cell) (text : Text) :
    Prop where
  drawn : text <+: (documentText memory indent (Json.cellDrawing s c)).toOption.getD []
  printed : ∀ v, s.Unfolds c v →
    text <+: ((Json.Layout.ofIndent memory indent).map (Json.print · v)).toOption.getD []

theorem isDocument_of_layOut {memory : Nat} {path : PathName} {indent : Option Int} {s : Store}
    {c : Cell} (h : (layOut memory path indent (Json.cellDrawing s c)).2 = none) :
    ∃ document, IsDocument memory indent s c document ∧
      (layOut memory path indent (Json.cellDrawing s c)).1 = document ++ [.char '\n'] := by
  obtain ⟨v, hv⟩ := exists_unfolds_of_layOut h
  rw [layOut_of_unfolds hv] at h ⊢
  obtain ⟨document, hdocument, hwritten⟩ := documentText_of_layOut_eq_none h
  rw [documentText_drawing] at hdocument
  exact ⟨document, ⟨v, hv, hdocument⟩, hwritten⟩

theorem beginsDocument_of_layOut {memory : Nat} {path : PathName} {indent : Option Int} {s : Store}
    {c : Cell} {e : WriteFailure}
    (h : (layOut memory path indent (Json.cellDrawing s c)).2 = some e) :
    BeginsDocument memory indent s c (layOut memory path indent (Json.cellDrawing s c)).1 where
  drawn := layOut_isPrefix h
  printed v hv := by
    rw [layOut_of_unfolds hv] at h ⊢
    rw [← documentText_drawing]
    exact layOut_isPrefix h

namespace Session

/-- A session in which what its files depend on is as before. -/
structure Keeps (s s' : Session) : Prop where
  settings : s'.settings = s.settings
  workspace : s'.workspace = s.workspace

variable {s s' s'' : Session}

namespace Keeps

theorem refl (s : Session) : s.Keeps s := ⟨rfl, rfl⟩

theorem trans (h : s.Keeps s') (h' : s'.Keeps s'') : s.Keeps s'' :=
  ⟨h'.settings.trans h.settings, h'.workspace.trans h.workspace⟩

end Keeps

theorem Beside.keeps (h : s.Beside s') : s.Keeps s' :=
  ⟨h.settings, h.workspace⟩

theorem keeps_map (s : Session) (mapping : Members) (input : Cell) :
    s.Keeps (s.map mapping input).2 :=
  ⟨rfl, rfl⟩

theorem keeps_run (s : Session) (input : Cell) (mapping : Members) :
    s.Keeps (s.run input (.obj mapping)).2 := by
  unfold run
  dsimp only
  split
  · exact .refl s
  · next inputSize _ =>
    have hmapped := (beside_start s inputSize).keeps.trans (keeps_map _ mapping input)
    generalize (s.start inputSize).map mapping input = r at hmapped ⊢
    obtain ⟨_ | mapped, s'⟩ := r
    · exact hmapped.trans (beside_finish s' 0 0).keeps
    · have hsampled := hmapped.trans (beside_sample s').keeps
      dsimp only
      split
      · exact hsampled.trans (beside_finish _ 0 0).keeps
      · exact (hsampled.trans (beside_finish _ _ _).keeps).trans (beside_note _ _).keeps

theorem keeps_runTexts (s : Session) (input mapping : Text) :
    s.Keeps (s.runTexts input mapping).2 := by
  obtain ⟨v, ms, lines, -, -, hrun⟩ | ⟨message, lines, -, hrun⟩ :=
    runTexts_eq_run_or_refused s input mapping
  · rw [hrun]
    have hloaded : s.Keeps ((s.note lines).load v).2 := ⟨rfl, rfl⟩
    exact hloaded.trans (keeps_run _ _ _)
  · rw [hrun]
    exact (beside_note s lines).keeps

theorem keeps_mapFiles (s : Session) (input mapping : Text) :
    s.Keeps (s.mapFiles input mapping).2 := by
  unfold mapFiles
  split
  · exact .refl s
  · exact .refl s
  · exact keeps_runTexts _ _ _

theorem absoluteText_congr {w w' : Workspace} (h : w'.home = w.home) (name : Text) :
    w'.absoluteText name = w.absoluteText name := by
  unfold Workspace.absoluteText
  rw [h]

theorem exists_save_ok_iff {output : Cell} {name : Text} :
    (∃ file s', s.save output name = (.ok file, s')) ↔ s.workspace.Accepts name ∧
      (layOut s.workspace.memory (.ofText name) s.settings.indent
        (Json.cellDrawing s.store output)).2 = none := by
  rw [← Workspace.exists_writeDrawing_ok_iff]
  unfold save
  rcases s.workspace.writeDrawing name s.settings.indent (Json.cellDrawing s.store output) with
    ⟨w', result⟩
  cases result with
  | error failure => simp
  | ok size => simp

/-- What is left when an output has been handed over to be written. -/
theorem save_leaves (s : Session) (output : Cell) (name : Text) :
    match s.save output name with
    | (.ok file, s') => file = s.workspace.absoluteText name ∧
        ∃ document, IsDocument s.workspace.memory s.settings.indent s.store output document ∧
          s.workspace.Holding s'.workspace (.ofText name) (document ++ [.char '\n'])
    | (.error failure, s') =>
      if failure.breaksOff then
        ∃ text, BeginsDocument s.workspace.memory s.settings.indent s.store output text ∧
          s.workspace.Holding s'.workspace (.ofText name) text
      else s.workspace.Prepared s'.workspace (.ofText name) := by
  have hleaves := s.workspace.writeDrawing_leaves name s.settings.indent
    (Json.cellDrawing s.store output)
  unfold save
  rcases hwrite : s.workspace.writeDrawing name s.settings.indent (Json.cellDrawing s.store output)
    with ⟨w', result⟩
  rw [hwrite] at hleaves
  cases result with
  | error failure =>
    dsimp only at hleaves ⊢
    split at hleaves
    · next hbreaks =>
      rw [if_pos hbreaks]
      exact ⟨_, beginsDocument_of_layOut hleaves.1, hleaves.2⟩
    · next hbreaks =>
      rw [if_neg hbreaks]
      exact hleaves
  | ok size =>
    obtain ⟨hnone, hholding⟩ := hleaves
    obtain ⟨document, hdocument, hwritten⟩ := isDocument_of_layOut hnone
    rw [hwritten] at hholding
    exact ⟨absoluteText_congr hholding.home name, document, hdocument, hholding⟩

/-- When a run on files succeeds, and what it leaves, however it ends. -/
theorem runFiles_leaves (s : Session) (input mapping output : Text) :
    match s.mapFiles input mapping with
    | (.ok (.mapped value records warnings _), s') =>
      ((∃ report, (s.runFiles input mapping output).1 = .ok report) ↔
        s.workspace.Accepts output ∧
          (layOut s.workspace.memory (.ofText output) s.settings.indent
            (Json.cellDrawing s'.store value)).2 = none) ∧
      match s.runFiles input mapping output with
      | (.ok report, s'') =>
        report = .mapped value records warnings (some (s.workspace.absoluteText output)) ∧
          ∃ document, IsDocument s.workspace.memory s.settings.indent s'.store value document ∧
            s.workspace.Holding s''.workspace (.ofText output) (document ++ [.char '\n'])
      | (.error e, s'') => ∃ failure : WriteFailure, e = failure.toStepError ∧
          if failure.breaksOff then
            ∃ text, BeginsDocument s.workspace.memory s.settings.indent s'.store value text ∧
              s.workspace.Holding s''.workspace (.ofText output) text
          else s.workspace.Prepared s''.workspace (.ofText output)
    | stopped => s.runFiles input mapping output = stopped ∧
        stopped.2.workspace = s.workspace := by
  have hkeeps := keeps_mapFiles s input mapping
  unfold runFiles
  rcases hmapped : s.mapFiles input mapping with ⟨result, s'⟩
  rw [hmapped] at hkeeps
  cases result with
  | error e => exact ⟨rfl, hkeeps.workspace⟩
  | ok report =>
    cases report with
    | refused message => exact ⟨rfl, hkeeps.workspace⟩
    | mapped value records warnings file =>
      have hleaves := s'.save_leaves value output
      have hsucceeds : (∃ file stored, s'.save value output = (.ok file, stored)) ↔ _ :=
        exists_save_ok_iff
      rw [hkeeps.settings, hkeeps.workspace] at hleaves hsucceeds
      dsimp only
      rw [← hsucceeds]
      rcases hsave : s'.save value output with ⟨result, stored⟩
      rw [hsave] at hleaves
      cases result with
      | error failure => exact ⟨by simp, failure, rfl, hleaves⟩
      | ok file =>
        obtain ⟨rfl, hholding⟩ := hleaves
        exact ⟨by simp, rfl, hholding⟩

/-- Two runs on files that end in an error. Of the first a file that breaks off is left, where an
earlier output was; of the second, a directory. -/
theorem runFiles_remains :
    let workspace : Workspace :=
      { tree := ⟨[(["i"], .file "\x7b\"a\": \"\\ud800\"\x7d".toUTF8),
          (["m"], .file "\x7b\"k\": \"a\"\x7d".toUTF8), (["n"], .file "\x7b\x7d".toUTF8),
          (["o"], .file "old".toUTF8)]⟩
        home := [] }
    let s : Session := { settings := {}, pool := false, profile := none, workspace }
    let tooLong : Text := [.char 'd', .char '/'] ++ List.replicate 256 (.char 'a')
    open? {} workspace = some s ∧
      (∃ e, (s.runFiles "i" "m" "o").1 = .error e) ∧
      s.workspace.tree.get? ["o"] = some (.file "old".toUTF8) ∧
      (s.runFiles "i" "m" "o").2.workspace.tree.get? ["o"] =
        some (.file "\x7b\n  \"k\": ".toUTF8) ∧
      (∃ e, (s.runFiles "i" "n" tooLong).1 = .error e) ∧
      s.workspace.tree.get? ["d"] = none ∧
      (s.runFiles "i" "n" tooLong).2.workspace.tree.get? ["d"] = some .directory := by
  intro workspace s tooLong
  have hbroken : (s.runFiles "i" "m" "o").1 =
      .error (.storage (.notEncoded (.ofText "o") { start := 1, first := 0, more := 0 })) := by
    decide +kernel
  have hrefused : (s.runFiles "i" "n" tooLong).1 =
      .error (.storage (.notWritten (.ofText tooLong) ⟨.ofText tooLong, .nameTooLong⟩)) := by
    decide +kernel
  refine ⟨rfl, ⟨_, hbroken⟩, ?_, ?_, ⟨_, hrefused⟩, ?_, ?_⟩
  · decide +kernel
  · decide +kernel
  · decide +kernel
  · decide +kernel

end Session

end Reshape

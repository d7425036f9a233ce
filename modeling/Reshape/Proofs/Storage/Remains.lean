import Reshape.Proofs.Json.Cells
import Reshape.Proofs.Storage.Directories
import Reshape.Proofs.Storage.ReadBack

/-!
# What writing leaves behind

Writing a document to a file changes that file, makes the directories that its name leads past, and
does nothing else (`Workspace.writeDrawing_leaves`). If it succeeds, the file holds the whole
document. If it fails before the file is begun, there may be new directories; if it breaks off after
that, the file holds how the document begins, and what it held before is lost. What a cell leads to
is written whole only if it is a value (`exists_unfolds_of_layOut`).
-/

namespace Reshape

/-- How a document is laid out, if there is a layout for the indentation. -/
def documentText (memory : Nat) (indent : Option Int) (d : Json.Drawing) :
    Except Json.IndentError Text :=
  (Json.Layout.ofIndent memory indent).map fun layout => Json.joinPieces (d layout)

/-- The file was begun, but the document could not be written to its end. -/
def WriteFailure.breaksOff : WriteFailure → Bool
  | .storage (.notEncoded ..) | .storage (.notPrinted ..) | .indent _ | .depth _ => true
  | .storage _ => false

/-! ### What gets into a file -/

section LayOut

variable {memory : Nat} {path : PathName} {indent : Option Int} {d : Json.Drawing} {v : Value}

theorem documentText_drawing (memory : Nat) (indent : Option Int) (v : Value) :
    documentText memory indent (Json.drawing v) =
      (Json.Layout.ofIndent memory indent).map (Json.print · v) := by
  simp only [documentText, Json.drawing, Json.joinPieces_pieces]

theorem isHalf_eq_false_of_mem_layOut :
    ∀ s ∈ (layOut memory path indent d).1, s.isHalf = false := by
  unfold layOut
  split
  · nofun
  · exact isHalf_eq_false_of_mem_writtenPieces

/-- A document that breaks off breaks off before its end. -/
theorem layOut_isPrefix {e : WriteFailure} (h : (layOut memory path indent d).2 = some e) :
    (layOut memory path indent d).1 <+: (documentText memory indent d).toOption.getD [] := by
  unfold layOut at h ⊢
  unfold documentText
  split at h
  · exact List.nil_prefix
  · next layout hlayout =>
    obtain ⟨cause, hcause, -⟩ := Option.map_eq_some_iff.mp h
    rw [hlayout]
    exact writtenPieces_isPrefix hcause

theorem documentText_of_layOut_eq_none (h : (layOut memory path indent d).2 = none) :
    ∃ document, documentText memory indent d = .ok document ∧
      (layOut memory path indent d).1 = document ++ [.char '\n'] := by
  unfold layOut at h ⊢
  unfold documentText
  split at h
  · cases h
  · next layout hlayout =>
    rw [hlayout]
    refine ⟨_, rfl, ?_⟩
    dsimp only
    rw [writtenPieces_eq_join (writtenPieces_eq_none_iff.mp (Option.map_eq_none_iff.mp h))]
    simp [filePieces]

/-- What is written to its end is what a value unfolds to. -/
theorem exists_unfolds_of_layOut {s : Store} {c : Cell}
    (h : (layOut memory path indent (Json.cellDrawing s c)).2 = none) : ∃ v, s.Unfolds c v := by
  obtain ⟨layout, -, hwritten⟩ := exists_layout_of_layOut h
  exact Json.exists_unfolds fun p hp =>
    (pieceError?_eq_none_iff.mp
      (writtenPieces_eq_none_iff.mp hwritten p (List.mem_append_left _ hp))).1

theorem breaksOff_of_layOut_eq_some {e : WriteFailure}
    (h : (layOut memory path indent d).2 = some e) : e.breaksOff = true := by
  unfold layOut at h
  split at h
  · cases h
    rfl
  · obtain ⟨cause, -, rfl⟩ := Option.map_eq_some_iff.mp h
    cases cause with
    | flaw flaw => cases flaw <;> rfl
    | noMemory => rfl
    | unencodable flaw => rfl

end LayOut

namespace Workspace

/-- Directories that a name leads past may have been made, and that is all. -/
structure Prepared (w w' : Workspace) (path : PathName) : Prop where
  home : w'.home = w.home
  guarded : w'.guarded = w.guarded
  memory : w'.memory = w.memory
  tree : FileTree.Grown (FileTree.startingAt w.home path.origin) path.parent.steps w.tree w'.tree

/-- The file of a name holds a text. Apart from it, directories that the name leads past may have
been made, and that is all. -/
structure Holding (w w' : Workspace) (path : PathName) (text : Text) : Prop where
  home : w'.home = w.home
  guarded : w'.guarded = w.guarded
  memory : w'.memory = w.memory
  file : ∃ place content, w'.tree.locate w.home path = .ok place ∧ text.string? = some content ∧
    w'.tree.get? place = some (.file content.toUTF8) ∧
    ∀ other ≠ place, w'.tree.get? other = w.tree.get? other ∨
      FileTree.MadeAlong (FileTree.startingAt w.home path.origin) path.parent.steps
        w.tree w'.tree other

variable {w w' made : Workspace} {path : PathName} {text : Text}

theorem ensureParent_prepared (w : Workspace) (path : PathName) :
    w.Prepared (w.ensureParent path).1 path := by
  have hgrown := FileTree.makeDirectories_grown w.tree w.home path.parent.origin
    path.parent.steps.reverse w.guarded
  rw [List.reverse_reverse] at hgrown
  unfold ensureParent
  dsimp only
  split
  · exact ⟨rfl, rfl, rfl, .refl _ _ _⟩
  · split
    · next hmade =>
      rw [hmade] at hgrown
      exact ⟨rfl, rfl, rfl, hgrown⟩
    · next hmade =>
      rw [hmade] at hgrown
      exact ⟨rfl, rfl, rfl, hgrown⟩

theorem Prepared.holding {size : Nat} (h : w.Prepared made path)
    (htext : ∀ s ∈ text, s.isHalf = false)
    (hreplace : made.replaceText path text = .ok (w', size)) : w.Holding w' path text := by
  obtain ⟨-, tree, hwrite, rfl, -⟩ := replaceText_eq_ok_iff.mp hreplace
  obtain ⟨place, hlocate, hplace, -, rfl⟩ := FileTree.write_eq_ok_iff.mp hwrite
  rw [h.home] at hlocate
  refine ⟨h.home, h.guarded, h.memory, place, Text.shown text, FileTree.locate_put _ hplace hlocate,
    string?_eq_some_shown htext, FileTree.get?_put_self _ hplace, fun other hother => ?_⟩
  rw [FileTree.get?_put_of_ne _ hother]
  refine (h.tree.get? other).imp_right fun hmade => ?_
  obtain ⟨above, habove, hresolve⟩ := hmade.along
  exact
    { absent := hmade.absent
      present := (FileTree.get?_put_of_ne _ hother).trans hmade.present
      along := ⟨above, habove, FileTree.resolve_put _ hplace hresolve⟩ }

theorem ensureParent_error {e : StorageError} (h : (w.ensureParent path).2 = some e) :
    (WriteFailure.storage e).breaksOff = false := by
  unfold ensureParent at h
  dsimp only at h
  split at h
  · cases h
    rfl
  · split at h
    · cases h
      rfl
    · split at h
      · cases h
      · cases h
        rfl

theorem replaceText_error {e : StorageError} (h : w.replaceText path text = .error e) :
    (WriteFailure.storage e).breaksOff = false := by
  unfold replaceText at h
  split at h
  · cases h
    rfl
  · dsimp only at h
    split at h
    · cases h
      rfl
    · cases h

/-- Whatever the file takes, it takes a document of one digit, if the end of a line can be written.
-/
theorem accepts_of_replaceText {name : Text} {indent : Option Int} {d : Json.Drawing} {size : Nat}
    (hparent : w.ensureParent (.ofText name) = (made, none))
    (hlay : (layOut made.memory (.ofText name) indent d).2 = none)
    (hreplace : made.replaceText (.ofText name) text = .ok (w', size)) : w.Accepts name := by
  obtain ⟨layout, -, hwritten⟩ := exists_layout_of_layOut hlay
  have hend := writtenPieces_eq_none_iff.mp hwritten { depth := 0, text := [.char '\n'] }
    (List.mem_append_right _ (List.mem_singleton.mpr rfl))
  have hdigit : ∀ p ∈ filePieces .compact (Json.drawing (.int 0)),
    pieceError? made.memory p = none := by
    intro p hp
    have hmemory := (pieceError?_eq_none_iff.mp hend).2.1
    have hp : p ∈ [{ depth := 0, text := [.char '0'], digits := 1 : Json.Piece },
        { depth := 0, text := [.char '\n'] }] := hp
    simp only [List.mem_cons, List.not_mem_nil, or_false] at hp
    rcases hp with rfl | rfl
    · exact pieceError?_eq_none_iff.mpr ⟨by decide, hmemory, by decide⟩
    · exact hend
  obtain ⟨hflaw, tree, htree, -, -⟩ := replaceText_eq_ok_iff.mp hreplace
  obtain ⟨tree', htree'⟩ :=
    FileTree.exists_write_ok htree (Text.shown [.char '0', .char '\n']).toUTF8
  refine ⟨none, .int 0, _, _, writeDrawing_eq_ok_iff.mpr ⟨made, _, hparent, ?_,
    replaceText_eq_ok_iff.mpr ⟨hflaw, tree', htree', rfl, rfl⟩⟩⟩
  simp only [layOut, Json.Layout.ofIndent, writtenPieces_eq_join hdigit]
  rfl

/-- A document is written if its file takes documents and nothing is in the way of this one. -/
theorem exists_writeDrawing_ok_iff {name : Text} {indent : Option Int} {d : Json.Drawing} :
    (∃ w' size, w.writeDrawing name indent d = (w', .ok size)) ↔
      w.Accepts name ∧ (layOut w.memory (.ofText name) indent d).2 = none := by
  constructor
  · rintro ⟨w', size, hwrite⟩
    obtain ⟨made, written, hparent, hlay, hreplace⟩ := writeDrawing_eq_ok_iff.mp hwrite
    have hmemory : made.memory = w.memory := by
      rw [← memory_ensureParent w, hparent]
    rw [hmemory] at hlay
    exact ⟨accepts_of_replaceText hparent (hmemory ▸ congrArg Prod.snd hlay) hreplace,
      congrArg Prod.snd hlay⟩
  · rintro ⟨haccepts, hlay⟩
    obtain ⟨made, hparent, hmemory, hreplace⟩ := haccepts.exists_replaceText
    obtain ⟨w', size, hfile⟩ := hreplace (layOut w.memory (.ofText name) indent d).1
    exact ⟨w', size, writeDrawing_eq_ok_iff.mpr
      ⟨made, _, hparent, by rw [hmemory]; exact Prod.ext rfl hlay, hfile⟩⟩

/-- What writing leaves, however it ends. -/
theorem writeDrawing_leaves (w : Workspace) (name : Text) (indent : Option Int) (d : Json.Drawing) :
    match w.writeDrawing name indent d with
    | (w', .ok _) => (layOut w.memory (.ofText name) indent d).2 = none ∧
        w.Holding w' (.ofText name) (layOut w.memory (.ofText name) indent d).1
    | (w', .error e) =>
      if e.breaksOff then (layOut w.memory (.ofText name) indent d).2 = some e ∧
        w.Holding w' (.ofText name) (layOut w.memory (.ofText name) indent d).1
      else w.Prepared w' (.ofText name) := by
  have hprepared := ensureParent_prepared w (.ofText name)
  unfold writeDrawing
  dsimp only
  rcases hparent : w.ensureParent (.ofText name) with ⟨made, _ | e⟩ <;> rw [hparent] at hprepared
  · dsimp only
    rw [hprepared.memory]
    cases hreplace :
      made.replaceText (.ofText name) (layOut w.memory (.ofText name) indent d).1 with
    | error e => simpa [replaceText_error hreplace] using hprepared
    | ok result =>
      have hholding := hprepared.holding isHalf_eq_false_of_mem_layOut hreplace
      cases hfailure : (layOut w.memory (.ofText name) indent d).2 with
      | none => exact ⟨rfl, hholding⟩
      | some e =>
        dsimp only
        rw [if_pos (breaksOff_of_layOut_eq_some hfailure)]
        exact ⟨rfl, hholding⟩
  · have hkind : (WriteFailure.storage e).breaksOff = false :=
      ensureParent_error (congrArg Prod.snd hparent)
    simpa [hkind] using hprepared

end Workspace

end Reshape

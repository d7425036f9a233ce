import Reshape.Document
import Reshape.Proofs.Document
import Reshape.Proofs.Json.Pieces
import Reshape.Proofs.Storage.FileTree

/-!
# Written values read back

A value that is written to a file of a workspace and read from it is the same value, whatever the
indentation (`Workspace.readDocument_writeDocument_iff`). What is asked of the file is only that
some document can be written to it (`Workspace.Accepts`), and of the workspace that it has memory
for the pieces of the text (`Workspace.HasMemory`).
-/

namespace Reshape

namespace Workspace

variable {w w' : Workspace} {name : Text} {indent : Option Int} {d : Json.Drawing} {v : Value}
  {size : Nat}

/-! ### Writing -/

theorem replaceText_eq_ok_iff {path : PathName} {text : Text} :
    w.replaceText path text = .ok (w', size) ↔ nameFlaw? path.text = none ∧
      ∃ tree, w.tree.write w.home path (Text.shown text).toUTF8 w.guarded = .ok tree ∧
        w' = { w with tree } ∧ size = (Text.shown text).toUTF8.size := by
  unfold replaceText
  split
  · next hflaw => simp [hflaw]
  · next hflaw =>
    dsimp only
    split
    · next hwrite =>
      simp only [hwrite, reduceCtorEq, false_and, exists_false, and_false]
    · next tree hwrite =>
      simp only [hflaw, hwrite, true_and, Except.ok.injEq, Prod.mk.injEq, exists_eq_left']
      exact ⟨fun h => ⟨h.1.symm, h.2.symm⟩, fun h => ⟨h.1.symm, h.2.symm⟩⟩

theorem writeDrawing_eq_ok_iff : w.writeDrawing name indent d = (w', .ok size) ↔
    ∃ made written, w.ensureParent (PathName.ofText name) = (made, none) ∧
      layOut made.memory (PathName.ofText name) indent d = (written, none) ∧
      made.replaceText (PathName.ofText name) written = .ok (w', size) := by
  unfold writeDrawing
  dsimp only
  split
  · next made e hparent => simp [hparent]
  · next made hparent =>
    rcases hlay : layOut made.memory (PathName.ofText name) indent d with ⟨written, failure⟩
    dsimp only
    split
    · next hreplace => simp [hparent, hlay, hreplace]
    · next hreplace => simp [hparent, hlay]
    · next hreplace => simp [hparent, hlay, hreplace]

theorem memory_ensureParent (w : Workspace) (path : PathName) :
    (w.ensureParent path).1.memory = w.memory := by
  unfold ensureParent
  dsimp only
  split
  · rfl
  · split <;> rfl

/-- Some document can be written to the file of this name. -/
def Accepts (w : Workspace) (name : Text) : Prop :=
  ∃ indent v w' size, w.writeDocument name indent v = (w', .ok size)

/-- Where one document can be written, any text can. -/
theorem Accepts.exists_replaceText (h : w.Accepts name) :
    ∃ made, w.ensureParent (PathName.ofText name) = (made, none) ∧ made.memory = w.memory ∧
      ∀ text, ∃ w' size, made.replaceText (PathName.ofText name) text = .ok (w', size) := by
  obtain ⟨indent, v, w', size, hwrite⟩ := h
  obtain ⟨made, written, hparent, -, hreplace⟩ := writeDrawing_eq_ok_iff.mp hwrite
  obtain ⟨hflaw, tree, htree, -, -⟩ := replaceText_eq_ok_iff.mp hreplace
  refine ⟨made, hparent, ?_, fun text => ?_⟩
  · rw [← memory_ensureParent w, hparent]
  · obtain ⟨tree', htree'⟩ := FileTree.exists_write_ok htree (Text.shown text).toUTF8
    exact ⟨_, _, replaceText_eq_ok_iff.mpr ⟨hflaw, tree', htree', rfl, rfl⟩⟩

/-! ### Reading -/

theorem readText_of_replaceText {text : Text}
    (h : w.replaceText (PathName.ofText name) text = .ok (w', size)) :
    w'.readText name = .ok (String.ofList (unifyLineEnds (Text.shown text).toList)) := by
  obtain ⟨hflaw, tree, hwrite, rfl, -⟩ := replaceText_eq_ok_iff.mp h
  simp only [readText, hflaw, FileTree.read_of_write hwrite, fromUTF8?_toUTF8]

theorem layOut_eq {path : PathName} {memory : Nat} {layout : Json.Layout} (hv : v.Storable)
    (hdepth : v.depth ≤ Json.nestingLimit)
    (hlayout : Json.Layout.ofIndent memory indent = .ok layout)
    (hroom : RoomFor memory layout v) :
    layOut memory path indent (Json.drawing v) = (Json.print layout v ++ [.char '\n'], none) := by
  simp only [layOut, hlayout, writtenPieces_filePieces hv hdepth hroom]
  rfl

theorem exists_readDocument_writeDocument (hw : w.Accepts name) (hv : v.Storable)
    (hdepth : v.depth ≤ Json.nestingLimit) {layout : Json.Layout}
    (hlayout : Json.Layout.ofIndent w.memory indent = .ok layout)
    (hroom : RoomFor w.memory layout v) :
    ∃ w' size text, w.writeDocument name indent v = (w', .ok size) ∧ w'.readText name = .ok text ∧
      readDocument .input text = .ok v := by
  obtain ⟨made, hparent, hmemory, hreplace⟩ := hw.exists_replaceText
  obtain ⟨w', size, hfile⟩ := hreplace (Json.print layout v ++ [.char '\n'])
  have hlay : layOut made.memory (PathName.ofText name) indent (Json.drawing v) =
      (Json.print layout v ++ [.char '\n'], none) := by
    rw [hmemory]
    exact layOut_eq hv hdepth hlayout hroom
  have hkept : (Json.print layout v ++ [Symbol.char '\n']).all Json.isKept = true := by
    rw [List.all_append, Json.print, Json.all_isKept_printAt hv]
    rfl
  refine ⟨w', size, _, writeDrawing_eq_ok_iff.mpr ⟨made, _, hparent, hlay, hfile⟩,
    readText_of_replaceText hfile, ?_⟩
  rw [ofString_unifyLineEnds_shown hkept]
  exact readDocument_of_decode_ok _ (Json.decode_print hv hdepth layout)

/-! ### Indentations -/

theorem ofIndent_some_eq_ok_iff {memory : Nat} {indent : Int} {layout : Json.Layout} :
    Json.Layout.ofIndent memory (some indent) = .ok layout ↔
      Json.Layout.fitsWord indent = true ∧ indent.toNat ≤ memory ∧
        layout = .indented indent.toNat := by
  cases hword : Json.Layout.fitsWord indent with
  | false => simp [Json.Layout.ofIndent, hword]
  | true =>
    by_cases hroom : memory < indent.toNat
    · have hno : ¬ indent.toNat ≤ memory := Nat.not_le_of_lt hroom
      simp only [Json.Layout.ofIndent, hword, hroom, hno, Bool.not_true, Bool.false_eq_true,
        if_false, if_true, reduceCtorEq, false_and, and_false]
    · simp [Json.Layout.ofIndent, hword, hroom, Nat.le_of_not_lt hroom, eq_comm]

/-- There is memory for the spaces of an indentation and for each piece of a document. -/
def HasMemory (w : Workspace) (indent : Int) (v : Value) : Prop :=
  indent.toNat ≤ w.memory ∧ RoomFor w.memory (.indented indent.toNat) v

/-- A storable value is written and read back as it was, and counts as a batch if it is a list,
with every indentation that fits its word, if there is memory for the text. With no other is it
written. -/
theorem readDocument_writeDocument_iff (hw : w.Accepts name) (hv : v.Storable)
    (hdepth : v.depth ≤ Json.nestingLimit) (indent : Int) :
    (∃ w' size text, w.writeDocument name (some indent) v = (w', .ok size) ∧
      w'.readText name = .ok text ∧ readDocument .input text = .ok v ∧
      (RootKind.ofValue v = .batch ↔ ∃ xs, v = .list xs)) ↔
    Json.Layout.fitsWord indent = true ∧ w.HasMemory indent v := by
  constructor
  · rintro ⟨w', size, text, hwrite, -⟩
    obtain ⟨made, written, hparent, hlay, -⟩ := writeDrawing_eq_ok_iff.mp hwrite
    have hmemory : made.memory = w.memory := by
      rw [← memory_ensureParent w, hparent]
    rw [hmemory] at hlay
    obtain ⟨layout, hlayout, hwritten⟩ := exists_layout_of_layOut (congrArg Prod.snd hlay)
    obtain ⟨hword, hspaces, rfl⟩ := ofIndent_some_eq_ok_iff.mp hlayout
    exact ⟨hword, hspaces, (writtenPieces_filePieces_iff hv hdepth _ _).mp hwritten⟩
  · rintro ⟨hword, hspaces, hroom⟩
    obtain ⟨w', size, text, hwrite, hread, hdocument⟩ :=
      exists_readDocument_writeDocument hw hv hdepth
        (ofIndent_some_eq_ok_iff.mpr ⟨hword, hspaces, rfl⟩) hroom
    refine ⟨w', size, text, hwrite, hread, hdocument, ?_⟩
    cases v <;> simp [RootKind.ofValue]

/-- A workspace without files. -/
def empty : Workspace :=
  { tree := {}, home := [] }

theorem accepts_empty : empty.Accepts "o" :=
  ⟨none, .null, _, _, rfl⟩

/-- A list, a double of negative sign, and a string with what is escaped and what is not ASCII. -/
def sample : Value :=
  .obj [("\u00e9", .list [.double (.zero true), .int (-7), .str "\t\"\u2028"]), ("", .null)]

theorem storable_sample : sample.Storable := by
  refine .obj (by decide) (by decide) fun m hm => ?_
  simp only [List.mem_cons, List.not_mem_nil, or_false] at hm
  rcases hm with rfl | rfl
  · refine .list fun x hx => ?_
    simp only [List.mem_cons, List.not_mem_nil, or_false] at hx
    rcases hx with rfl | rfl | rfl
    · exact .double _
    · exact .int (by decide)
    · exact .str (by decide)
  · exact .null

theorem hasMemory_sample : empty.HasMemory (-1) sample :=
  ⟨by decide, by decide +kernel⟩

theorem readDocument_writeDocument_negative :
    empty.Accepts "o" ∧ sample.Storable ∧ sample.depth ≤ Json.nestingLimit ∧
      Json.Layout.fitsWord (-1) = true ∧ empty.HasMemory (-1) sample ∧
    ∃ w' size text, empty.writeDocument "o" (some (-1)) sample = (w', .ok size) ∧
      w'.readText "o" = .ok text ∧ readDocument .input text = .ok sample ∧
      (RootKind.ofValue sample = .batch ↔ ∃ xs, sample = .list xs) :=
  ⟨accepts_empty, storable_sample, by decide, by decide, hasMemory_sample,
    (readDocument_writeDocument_iff accepts_empty storable_sample (by decide) (-1)).mpr
      ⟨by decide, hasMemory_sample⟩⟩

/-- An indentation beyond the word is refused, although the value is storable and the file can be
written to. -/
theorem writeDocument_beyondWord :
    empty.Accepts "o" ∧ (Value.list []).Storable ∧ (Value.list []).depth ≤ Json.nestingLimit ∧
    (empty.writeDocument "o" (some 0x10000000000000000) (.list [])).2 =
      .error (.indent .beyondWord) ∧
    ¬ ∃ w' size text,
      empty.writeDocument "o" (some 0x10000000000000000) (.list []) = (w', .ok size) ∧
      w'.readText "o" = .ok text ∧ readDocument .input text = .ok (.list []) := by
  have hrefused : (empty.writeDocument "o" (some 0x10000000000000000) (.list [])).2 =
      .error (.indent .beyondWord) := rfl
  refine ⟨accepts_empty, .list nofun, by decide, hrefused, ?_⟩
  rintro ⟨w', size, text, hwrite, -⟩
  rw [hwrite] at hrefused
  cases hrefused

end Workspace

end Reshape

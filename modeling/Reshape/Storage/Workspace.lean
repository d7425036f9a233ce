import Reshape.Json.Pieces
import Reshape.Storage.FileTree
import Reshape.Text.Utf8

/-!
# The workspace

A workspace is a file tree with a working directory. Documents are read from it as texts, and
results are written to it, one value to a file, in directories that are made as needed.
-/

namespace Reshape

/-- Why a file was not read or written. -/
inductive StorageError where
  | notRead (path : PathName) (refusal : FileTree.Refusal)
  | notText (path : PathName) (flaw : Utf8.Flaw)
  | notWritten (path : PathName) (refusal : FileTree.Refusal)
  | notEncoded (path : PathName) (flaw : Utf8.Unencodable)
  | notPrinted (path : PathName) (flaw : Json.PieceFlaw)
  | notNamed (path : PathName) (flaw : NameFlaw)
  | noDirectory (path : PathName) (refusal : FileTree.Refusal)
  | guardedDirectory (path : PathName)
  deriving DecidableEq, Repr

namespace StorageError

def message : StorageError → Text
  | notRead path refusal => "Failed to read " ++ path.text ++ s!": {refusal.message}"
  | notText path flaw => "Failed to read " ++ path.text ++ s!": {flaw.message}"
  | notWritten path refusal => "Failed to write output " ++ path.text ++ s!": {refusal.message}"
  | notEncoded path flaw => "Failed to write output " ++ path.text ++ s!": {flaw.message}"
  | notPrinted path flaw => "Failed to write output " ++ path.text ++ s!": {flaw.message}"
  | notNamed path flaw => "Failed to write output " ++ path.text ++ s!": {flaw.message}"
  | noDirectory path refusal =>
    "Failed to create directory " ++ path.text ++ s!": {refusal.message}"
  | guardedDirectory path => "Directory " ++ path.text ++ " is not writable"

/-- The file that an error is about, under a name for what it was to be used for. -/
def context : StorageError → Option (Text × Text)
  | notRead path _ | notText path _ => some ("input_file", path.text)
  | notWritten path _ | notEncoded path _ | notPrinted path _ | notNamed path _ =>
    some ("output_file", path.text)
  | noDirectory _ _ | guardedDirectory _ => none

end StorageError

/-- Reading fails with an error of storage or, if no file can have the name, for the name. -/
inductive ReadFailure where
  | storage (e : StorageError)
  | misnamed (flaw : NameFlaw)
  deriving DecidableEq, Repr

/-- Writing fails with an error of storage, or because the value cannot be laid out. -/
inductive WriteFailure where
  | storage (e : StorageError)
  | indent (e : Json.IndentError)
  | depth (e : Json.DepthError)
  deriving DecidableEq, Repr

/-- Why a document breaks off at a piece. -/
inductive PieceError where
  | flaw (flaw : Json.PieceFlaw)
  | noMemory
  | unencodable (flaw : Utf8.Unencodable)
  deriving DecidableEq, Repr

/-- What is in the way of writing a piece, where a text can be so long. -/
def pieceError? (memory : Nat) (p : Json.Piece) : Option PieceError :=
  match p.flaw? with
  | some flaw => some (.flaw flaw)
  | none =>
    if memory < p.text.length then some .noMemory
    else (Utf8.unencodable? Symbol.isHalf p.text).map .unencodable

/-- What gets into a file of pieces: those before the first that cannot be written. -/
def writtenPieces (memory : Nat) : List Json.Piece → Text × Option PieceError
  | [] => ([], none)
  | piece :: rest =>
    match pieceError? memory piece with
    | some e => ([], some e)
    | none =>
      let (more, e) := writtenPieces memory rest
      (piece.text ++ more, e)

/-- A document as a file has it. -/
def filePieces (layout : Json.Layout) (d : Json.Drawing) : List Json.Piece :=
  d layout ++ Json.piecesOf 0 [[.char '\n']]

/-- What a document leaves in a file, and what is in the way of the rest. -/
def layOut (memory : Nat) (path : PathName) (indent : Option Int) (d : Json.Drawing) :
    Text × Option WriteFailure :=
  match Json.Layout.ofIndent memory indent with
  | .error e => ([], some (.indent e))
  | .ok layout =>
    let (written, e) := writtenPieces memory (filePieces layout d)
    (written, e.map fun
      | .flaw .tooDeep => .depth .inPieces
      | .flaw flaw => .storage (.notPrinted path flaw)
      | .noMemory => .indent .noMemory
      | .unencodable flaw => .storage (.notEncoded path flaw))

structure Workspace where
  tree : FileTree
  home : Location
  /-- The files whose content may not be replaced, and the directories in which nothing may be
  made. -/
  guarded : List Location := []
  /-- How long a text can be that is written. -/
  memory : Nat := 0x1000000000

namespace Workspace

/-- The text of a file, with all line ends alike. -/
def readText (w : Workspace) (name : Text) : Except ReadFailure String :=
  let path := PathName.ofText name
  match nameFlaw? path.text with
  | some flaw => .error (.misnamed flaw)
  | none =>
    match w.tree.read w.home path with
    | .error e => .error (.storage (.notRead path ⟨path, e⟩))
    | .ok bytes =>
      match String.fromUTF8? bytes with
      | some s => .ok (String.ofList (unifyLineEnds s.toList))
      | none => .error (.storage (.notText path (Utf8.flaw bytes)))

/-- Makes the directory that a file goes to. It must not be guarded, even if the file is there. -/
def ensureParent (w : Workspace) (path : PathName) : Workspace × Option StorageError :=
  let directory := path.parent
  match nameFlaw? directory.text with
  | some flaw => (w, some (.notNamed path flaw))
  | none =>
    match w.tree.makeDirectories w.home directory.origin directory.steps.reverse w.guarded with
    | (tree, some refusal) => ({ w with tree }, some (.noDirectory directory refusal))
    | (tree, none) =>
      ({ w with tree },
        if tree.isOpen w.home directory w.guarded then none
        else some (.guardedDirectory directory))

/-- Puts a text in a file, in place of what it held, and answers with its size. -/
def replaceText (w : Workspace) (path : PathName) (text : Text) :
    Except StorageError (Workspace × Nat) :=
  match nameFlaw? path.text with
  | some flaw => .error (.notNamed path flaw)
  | none =>
    let bytes := (Text.shown text).toUTF8
    match w.tree.write w.home path bytes w.guarded with
    | .error e => .error (.notWritten path ⟨path, e⟩)
    | .ok tree => .ok ({ w with tree }, bytes.size)

/-- Writes a document and a line feed to a file and answers with the size of the file. A document
that cannot be written to its end leaves a file that breaks off. -/
def writeDrawing (w : Workspace) (name : Text) (indent : Option Int) (d : Json.Drawing) :
    Workspace × Except WriteFailure Nat :=
  let path := PathName.ofText name
  match w.ensureParent path with
  | (w, some e) => (w, .error (.storage e))
  | (w, none) =>
    let (written, failure) := layOut w.memory path indent d
    match w.replaceText path written, failure with
    | .error e, _ => (w, .error (.storage e))
    | .ok (w, _), some e => (w, .error e)
    | .ok (w, size), none => (w, .ok size)

def writeDocument (w : Workspace) (name : Text) (indent : Option Int) (v : Value) :
    Workspace × Except WriteFailure Nat :=
  w.writeDrawing name indent (Json.drawing v)

/-- The name of a file from the root. -/
def absoluteText (w : Workspace) (name : Text) : Text :=
  match PathName.ofText name with
  | ⟨.home, steps⟩ => (PathName.mk .root (w.home ++ steps)).text
  | path => path.text

end Workspace

end Reshape

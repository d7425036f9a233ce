import Reshape.Json.Decoder
import Reshape.Json.Pieces
import Reshape.Mapping.Check

/-!
# Documents

The texts that a run starts from: an input document and a mapping document. A text is first
checked, which gives a `Verdict`, and then read. A text that exceeds a limit of reading is not
checked to the end: this is a `Trouble`, which `checkInput` turns into a complaint.
-/

namespace Reshape

/-- The length in bytes of a document on one line, zero if it cannot be printed or encoded. What is
met first in the document decides. -/
def drawingSize (d : Json.Drawing) : Except Json.DepthError Nat :=
  match (d .compact).findSome? Json.Piece.flaw? with
  | some .tooDeep => .error .onOneLine
  | some _ => .ok 0
  | none => .ok (((Text.string? (Json.joinPieces (d .compact))).map String.utf8ByteSize).getD 0)

/-- The size of the document of a cell. -/
def documentSize (s : Store) (c : Cell) : Except Json.DepthError Nat :=
  drawingSize (Json.cellDrawing s c)

/-- Whether an input is one record or a list of records. -/
inductive RootKind where
  | record
  | batch
  deriving DecidableEq, Repr

def RootKind.label : RootKind → String
  | record => "record"
  | batch => "batch"

def RootKind.ofValue : Value → RootKind
  | .list _ => batch
  | _ => record

/-- Whether a text is one well-formed value. -/
def checkText (text : Text) : Except Trouble Verdict :=
  if trim text = [] then .ok { errors := [.blank] }
  else match Json.decode text with
    | .ok _ => .ok {}
    | .error (.malformed fault place) => .ok { errors := [.malformed fault place] }
    | .error (.tooManyDigits limit) => .error (.tooManyDigits limit)
    | .error (.tooDeep container) => .error (.tooDeep container)

/-- Only a text can be checked. -/
def checkValue : Value → Except Trouble Verdict
  | .str text => checkText text
  | v => .error (.notText v.typeName)

/-- A verdict in any case. -/
def checkInput (v : Value) : Verdict :=
  match checkValue v with
  | .ok verdict => verdict
  | .error trouble => { errors := [.unchecked trouble] }

/-- Which of the two documents a text is. -/
inductive Role where
  | input
  | mapping
  deriving DecidableEq, Repr

def Role.label : Role → String
  | input => "input"
  | mapping => "mapping"

/-- Why there is no document. -/
inductive DocumentError where
  | unreadable (role : Role) (complaints : List Complaint)
  | misshapen (complaints : List Complaint)
  deriving DecidableEq, Repr

def DocumentError.message : DocumentError → String
  | unreadable role complaints =>
    s!"Invalid JSON {role.label}: " ++ "; ".intercalate (complaints.map Complaint.located)
  | misshapen complaints =>
    "Invalid mapping: " ++ "; ".intercalate (complaints.map Complaint.message)

/-- Reads a text that passes its check. -/
def readDocument (role : Role) (text : Text) : Except DocumentError Value :=
  let verdict := checkInput (.str text)
  match verdict.isValid, Json.decode text with
  | true, .ok value => .ok value
  | _, _ => .error (.unreadable role verdict.errors)

/-- How many calls fit where a mapping is checked that has been read: three more than where it was
read, and one for the call itself. -/
def checkRoom : Nat := Json.nestingLimit + 4

/-- Why a mapping is not read: there is no document, or its check is stopped. -/
inductive MappingError where
  | document (e : DocumentError)
  | unshown (e : TextError)
  deriving DecidableEq, Repr

/-- Reads a mapping, which has to be an object. -/
def readMapping (registry : Option Registry) (text : Text) : Except MappingError Members := do
  let value ← (readDocument .mapping text).mapError .document
  let verdict ← (checkMapping checkRoom registry value).mapError .unshown
  match verdict.isValid, value with
  | true, .obj ms => return ms
  | _, _ => .error (.document (.misshapen verdict.errors))

/-! ### The journal of reading -/

/-- Only a trouble is noted down. -/
def checkJournal (text : Text) : Journal :=
  match checkText text with
  | .ok _ => []
  | .error trouble => [⟨.error, s!"Unexpected error during input validation: {trouble.message}"⟩]

def inputJournal (text : Text) : Journal :=
  checkJournal text ++
    match readDocument .input text with
    | .ok value => [⟨.info, s!"Parsed JSON input with root kind: {(RootKind.ofValue value).label}"⟩]
    | .error _ => []

def mappingJournal (registry : Option Registry) (text : Text) : Journal :=
  checkJournal text ++
    match readDocument .mapping text with
    | .ok value =>
      match checkMapping checkRoom registry value with
      | .ok verdict =>
        verdict.warnings.map (fun remark => ⟨.warning, "Mapping warning: " ++ remark.text⟩) ++
        match readMapping registry text with
        | .ok ms => [⟨.info, s!"Parsed mapping with {ms.length} entries"⟩]
        | .error _ => []
      | .error _ => []
    | .error _ => []

end Reshape

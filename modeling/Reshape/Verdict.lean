import Reshape.Entry
import Reshape.Json.Fault
import Reshape.Text.Quoted

/-!
# Verdicts

What the check of a document comes to. A `Complaint` says why the document cannot be used. A
`Remark` says what a run will make of one entry of a mapping that can be used.
-/

namespace Reshape

/-- What a complaint or an error is about. -/
inductive Concern where
  | grammar
  | shape
  | path
  | transform
  | filesystem
  deriving DecidableEq, Repr

namespace Concern

def label : Concern → String
  | grammar => "syntax"
  | shape => "structure"
  | path => "path"
  | transform => "transform"
  | filesystem => "filesystem"

def all : List Concern := [grammar, shape, path, transform, filesystem]

def ofLabel? (label : Text) : Option Concern :=
  all.find? fun c => (c.label : Text) == label

/-- What is said of a label that no concern has. -/
def unknownLabel (label : Text) : String :=
  s!"{quoted label} is not a valid ErrorType"

end Concern

/-- Why a check came to no verdict. -/
inductive Trouble where
  | tooManyDigits (limit : TooManyDigits)
  | tooDeep (container : Json.Container)
  | notText (typeName : String)
  deriving DecidableEq, Repr

def Trouble.message : Trouble → String
  | tooManyDigits limit => limit.message
  | tooDeep container =>
    s!"maximum recursion depth exceeded while decoding {container.label} from a unicode string"
  | notText typeName => s!"'{typeName}' object has no attribute 'strip'"

inductive Complaint where
  /-- There is nothing but white space. -/
  | blank
  | malformed (fault : Json.Fault) (place : Place)
  | unchecked (trouble : Trouble)
  /-- A mapping has to be an object. -/
  | notAnObject (typeName : String)
  deriving DecidableEq, Repr

namespace Complaint

def concern : Complaint → Concern
  | blank | malformed _ _ | unchecked _ => .grammar
  | notAnObject _ => .shape

def message : Complaint → String
  | blank => "JSON string is empty"
  | malformed fault _ => s!"Invalid JSON syntax: {fault.message}"
  | unchecked trouble => s!"Validation failed with unexpected error: {trouble.message}"
  | notAnObject typeName => s!"Mapping root must be an object, got {typeName}"

def location : Complaint → String
  | blank | unchecked _ => "input"
  | malformed _ place => place.text
  | notAnObject _ => "root"

def located (c : Complaint) : String :=
  s!"{c.message} ({c.location})"

end Complaint

/-- What a run will do otherwise than the entry may seem to say. -/
inductive Caution where
  | emptyTarget
  | indexedTarget
  /-- What stands for the name is shown. -/
  | unusableName (shown : String)
  | unknownTransform (name : Text)
  | pathIgnored
  | noArguments (name : Text)
  | nestedTransform (position : Nat)
  deriving DecidableEq

structure Remark where
  target : Text
  caution : Caution
  deriving DecidableEq

namespace Remark

def text (r : Remark) : Text :=
  match r.caution with
  | .emptyTarget => "target path is empty, the value is written under an empty key"
  | .indexedTarget =>
    r.target ++ ": numeric indices are not supported in target paths " ++
      "and are kept as part of the key"
  | .unusableName shown =>
    r.target ++ ": transform name must be a non-empty string, got " ++ shown ++
      "; the entry is skipped"
  | .unknownTransform name => r.target ++ ": unknown transform '" ++ name ++ "'"
  | .pathIgnored =>
    r.target ++ ": both " ++ Keyword.args ++ " and " ++ Keyword.path ++ " given, " ++
      Keyword.path ++ " is ignored"
  | .noArguments name =>
    r.target ++ ": transform '" ++ name ++ "' has no " ++ Keyword.args ++ " or " ++ Keyword.path
  | .nestedTransform position =>
    r.target ++ s!": argument {position} is a nested transform and will be passed as a plain object"

end Remark

structure Verdict where
  errors : List Complaint := []
  warnings : List Remark := []
  deriving DecidableEq

def Verdict.isValid (v : Verdict) : Bool :=
  v.errors.isEmpty

/-! ### Advice -/

/-- What to do about an error, by what it concerns. A document that is wrong has to be mended; a
transform or a file that fails leaves the rest of the results usable. -/
structure Advice where
  canRecover : Bool
  action : String
  partialResults : Value := .null
  deriving DecidableEq

/-- The results that an error's context carries along. A context that counts as nothing carries
none; any other has to be an object. -/
def partialResults : Option Value → Except NotAnObject Value
  | none => .ok .null
  | some (.obj ms) => .ok ((Keyed.get? ms "partial_results").getD .null)
  | some v => if v.isHollow then .ok .null else .error ⟨v.typeName⟩

def advise (concern : Concern) (context : Option Value) : Except NotAnObject Advice :=
  match concern with
  | .grammar => .ok
    { canRecover := false
      action := "Fix the JSON syntax of the input or mapping file. " ++
        "Comments and trailing commas are not valid JSON." }
  | .shape => .ok
    { canRecover := false
      action := "The mapping file must contain a JSON object whose keys are target paths." }
  | .transform => return {
      canRecover := true
      action := "Check the transform name and its arguments. " ++
        "The affected entry is omitted from the output."
      partialResults := ← partialResults context }
  | .filesystem => return {
      canRecover := true
      action := "Check that the input files exist and are readable, " ++
        "and that the output location is writable."
      partialResults := ← partialResults context }
  | .path => .ok
    { canRecover := false
      action := "Unknown error type. Please check logs and retry." }

end Reshape

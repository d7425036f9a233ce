import Reshape.Path.Segment
import Reshape.Value

/-!
# Writing along a path

A target path names places inside an object. Only a final `[]` on a piece means something: the
piece then names a list. A list on the way is entered at its first element, so that targets
with the same way fill in the same element. At the end of the way a list replaces the list
that is there, and any other value is appended to it.
-/

namespace Reshape

/-- One piece of a target path. -/
inductive Slot where
  | field (key : Text)
  | array (key : Text)
  deriving DecidableEq, Repr

namespace Slot

def key : Slot → Text
  | field k => k
  | array k => k

def ofText (piece : Text) : Slot :=
  if [.char '[', .char ']'].isSuffixOf piece then array (piece.take (piece.length - 2))
  else field piece

end Slot

/-- The slots of a target path. -/
abbrev Target := List Slot

namespace Target

def ofText (text : Text) : Target :=
  (Path.pieces text).map Slot.ofText

end Target

/-- The elements of the list under a key, none if there is no list. -/
def elementsUnder (ms : Members) (key : Text) : List Value :=
  ((Keyed.get? ms key).map Value.elements).getD []

/-- The members of the object under a key, none if there is no object. -/
def membersUnder (ms : Members) (key : Text) : Members :=
  ((Keyed.get? ms key).map Value.members).getD []

/-- The members of the first element, none if it is no object. -/
def firstMembers (xs : List Value) : Members :=
  (xs.head?.map Value.members).getD []

/-- What a list becomes when a value is written to its end. -/
def appended (xs : List Value) : Value → List Value
  | .list ys => ys
  | v => xs ++ [v]

/-- The members after writing a value at a target, which makes objects and lists on the way
where there are none. -/
def write (ms : Members) : Target → Value → Members
  | [], _ => ms
  | [.field k], v => Keyed.put ms k v
  | [.array k], v => Keyed.put ms k (.list (appended (elementsUnder ms k) v))
  | .field k :: rest, v => Keyed.put ms k (.obj (write (membersUnder ms k) rest v))
  | .array k :: rest, v =>
    let xs := elementsUnder ms k
    Keyed.put ms k (.list (.obj (write (firstMembers xs) rest v) :: xs.tail))

def writeText (ms : Members) (text : Text) (v : Value) : Members :=
  write ms (Target.ofText text) v

/-- A value that is not there leaves the members alone. -/
def writeOptional (ms : Members) (text : Text) : Option Value → Members
  | some v => writeText ms text v
  | none => ms

/-- Why nothing can be written into a value. -/
inductive TargetError where
  | notAnObject (e : NotAnObject)
  | notAssignable (typeName : String)
  /-- A list has positions, not names. -/
  | notNamed
  deriving DecidableEq, Repr

namespace TargetError

def message : TargetError → String
  | notAnObject e => e.message
  | notAssignable typeName => s!"'{typeName}' object does not support item assignment"
  | notNamed => "list indices must be integers or slices, not str"

/-- Only a target that is a single field is written without a look at what is there. -/
def ofTarget (v : Value) : Target → TargetError
  | [.field _] => match v with
    | .list _ => notNamed
    | v => notAssignable v.typeName
  | _ => notAnObject ⟨v.typeName⟩

end TargetError

/-- Writes into a value, which has to be an object unless there is nothing to write. -/
def Value.write (root : Value) (text : Text) (v : Option Value) : Except TargetError Value :=
  match root, v with
  | root, none => .ok root
  | obj ms, some v => .ok (.obj (writeText ms text v))
  | root, some _ => .error (.ofTarget root (Target.ofText text))

end Reshape

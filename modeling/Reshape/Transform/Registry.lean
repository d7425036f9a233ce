import Reshape.Value.Display

/-!
# Transforms and their registry

A transform is a function that is called with cells and comes to a cell, which may be missing, or to
an error. It can look at the store and change it. A registry holds transforms by name, in the order
of their first registration. Extending a registry makes a new one, and only functions can extend it.
-/

namespace Reshape

/-- Why a transform gave no answer. -/
inductive TransformError where
  /-- The arguments do not suit the transform. -/
  | unfit (message : String)
  /-- Something was looked up that is not there. -/
  | absentKey (key : Value)
  /-- Any other error, whose text may be an error again. -/
  | broken (text : Except TextError String)

/-- What an error says where so many calls fit. -/
def TransformError.text (room : Nat) : TransformError → Except TextError Text
  | unfit message => .ok (message : Text)
  | absentKey key => return (← key.quoted (room - 2) : String)
  | broken text => return (← text : String)

/-- What a call comes to. -/
inductive Answer where
  | value (x : Option Cell)
  | failed (e : TransformError)
  /-- What is raised is no ordinary error, and nothing catches it. -/
  | aborted

/-- `room` is how many calls fit where the transform is called. -/
abbrev Transform := (room : Nat) → List Cell → Store → Answer × Store

/-- What stands under a name: a function, or a value that cannot be called. -/
inductive Registered where
  | function (f : Transform)
  | constant (v : Value)

namespace Registered

def isFunction : Registered → Bool
  | function _ => true
  | constant _ => false

/-- Whether there is only `null`. -/
def isNull : Registered → Bool
  | constant .null => true
  | _ => false

def call : Registered → Transform
  | function f => f
  | constant v => fun _ _ s => (.failed (.unfit s!"'{v.typeName}' object is not callable"), s)

end Registered

structure Registry where
  entries : Keyed Text Registered

namespace Registry

def empty : Registry := ⟨[]⟩

def ofList (pairs : List (Text × Registered)) : Registry :=
  ⟨Keyed.ofList pairs⟩

def names (r : Registry) : List Text :=
  Keyed.keys r.entries

def size (r : Registry) : Nat :=
  r.entries.length

def get? (r : Registry) (name : Text) : Option Registered :=
  Keyed.get? r.entries name

def contains (r : Registry) (name : Text) : Bool :=
  (r.get? name).isSome

/-- Only a text can be the name of a transform, and `null` under a name is as good as nothing. -/
def lookup (r : Registry) : Value → Option Registered
  | .str name => (r.get? name).filter (!·.isNull)
  | _ => none

/-- Calls what stands under a name. -/
def call (r : Registry) (name : Text) : Transform := fun room args s =>
  match r.get? name with
  | some found => found.call room args s
  | none => (.failed (.absentKey (.str name)), s)

/-- The registry with more functions, or the first name that does not stand for one. -/
def extend (r : Registry) (extra : Keyed Text Registered) : Except Text Registry :=
  match extra.find? fun p => !p.2.isFunction with
  | some p => .error p.1
  | none => .ok ⟨Keyed.putAll r.entries extra⟩

/-- What is said of a name that does not stand for a function. -/
def notCallable (name : Text) : String :=
  s!"Transform {quoted name} is not callable"

def text (r : Registry) : String :=
  "TransformRegistry([" ++ ", ".intercalate ((r.names.mergeSort Text.le).map quoted) ++ "])"

end Registry

end Reshape

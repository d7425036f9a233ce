import Reshape.Keyed
import Reshape.Number.Double
import Reshape.Text.Symbol

/-!
# Values

The values that documents hold and mappings work on. Objects keep their members
in order. A value that is not there at all is `none`, which is not `null`.
-/

namespace Reshape

inductive Value where
  | null
  | bool (b : Bool)
  | int (n : Int)
  | double (x : Double)
  | str (s : Text)
  | list (xs : List Value)
  | obj (members : List (Text × Value))

/-- The members of an object, in order. -/
abbrev Members := Keyed Text Value

namespace Value

/-- The kind of a value, as messages name it. -/
def typeName : Value → String
  | null => "NoneType"
  | bool _ => "bool"
  | int _ => "int"
  | double _ => "float"
  | str _ => "str"
  | list _ => "list"
  | obj _ => "dict"

/-- The elements of a list, none for any other value. -/
def elements : Value → List Value
  | list xs => xs
  | _ => []

/-- The members of an object, none for any other value. -/
def members : Value → Members
  | obj ms => ms
  | _ => []

/-- Whether a value counts as nothing: `null`, `false`, a zero, or an empty text, list or
object. -/
def isHollow : Value → Bool
  | null => true
  | bool b => !b
  | int n => n == 0
  | double (.finite _ significand _ _) => significand == 0
  | double _ => false
  | str s => s.isEmpty
  | list xs => xs.isEmpty
  | obj ms => ms.isEmpty

mutual

def decEq : (a b : Value) → Decidable (a = b)
  | null, b => match b with
    | null => isTrue rfl
    | bool _ | int _ | double _ | str _ | list _ | obj _ => isFalse (by simp)
  | bool x, b => match b with
    | bool y => decidable_of_iff (x = y) (by simp)
    | null | int _ | double _ | str _ | list _ | obj _ => isFalse (by simp)
  | int x, b => match b with
    | int y => decidable_of_iff (x = y) (by simp)
    | null | bool _ | double _ | str _ | list _ | obj _ => isFalse (by simp)
  | double x, b => match b with
    | double y => decidable_of_iff (x = y) (by simp)
    | null | bool _ | int _ | str _ | list _ | obj _ => isFalse (by simp)
  | str x, b => match b with
    | str y => decidable_of_iff (x = y) (by simp)
    | null | bool _ | int _ | double _ | list _ | obj _ => isFalse (by simp)
  | list xs, b => match b with
    | list ys => match decEqList xs ys with
      | isTrue h => isTrue (by rw [h])
      | isFalse h => isFalse (by simpa using h)
    | null | bool _ | int _ | double _ | str _ | obj _ => isFalse (by simp)
  | obj xs, b => match b with
    | obj ys => match decEqMembers xs ys with
      | isTrue h => isTrue (by rw [h])
      | isFalse h => isFalse (by simpa using h)
    | null | bool _ | int _ | double _ | str _ | list _ => isFalse (by simp)

def decEqList : (xs ys : List Value) → Decidable (xs = ys)
  | [], [] => isTrue rfl
  | [], _ :: _ => isFalse (by simp)
  | _ :: _, [] => isFalse (by simp)
  | x :: xs, y :: ys => match decEq x y, decEqList xs ys with
    | isTrue h, isTrue h' => isTrue (by rw [h, h'])
    | isFalse h, _ => isFalse (by simp [h])
    | _, isFalse h => isFalse (by simp [h])

def decEqMembers : (xs ys : List (Text × Value)) → Decidable (xs = ys)
  | [], [] => isTrue rfl
  | [], _ :: _ => isFalse (by simp)
  | _ :: _, [] => isFalse (by simp)
  | (k, x) :: xs, (l, y) :: ys => match decEq x y, decEqMembers xs ys with
    | isTrue h, isTrue h' => decidable_of_iff (k = l) (by simp [h, h'])
    | isFalse h, _ => isFalse (by simp [h])
    | _, isFalse h => isFalse (by simp [h])

end

instance : DecidableEq Value := decEq

instance : Inhabited Value := ⟨null⟩

end Value

/-- A value was asked for a member, but is no object. -/
structure NotAnObject where
  typeName : String
  deriving DecidableEq, Repr

def NotAnObject.message (e : NotAnObject) : String :=
  s!"'{e.typeName}' object has no attribute 'get'"

end Reshape

import Reshape.Number.Numeral
import Reshape.Number.Shortest
import Reshape.Store
import Reshape.Text.Quoted

/-!
# Values in messages

How messages show a value. `Look.quoted` shows every text between quotes, `Value.display` shows a
value that is itself a text as it is. An integer can have too many digits to be shown, and a value
can nest deeper than calls fit; a container that is part of itself is shown once.
-/

namespace Reshape

/-- Why a value has no text. -/
inductive TextError where
  | tooManyDigits
  | tooDeep
  deriving DecidableEq, Repr

def TextError.message : TextError → String
  | tooManyDigits => tooManyToWrite
  | tooDeep => "maximum recursion depth exceeded while getting the repr of an object"

/-- The numbers without digits have short names in lower case. -/
def messageDoubles : DoubleStyle where
  nan := "nan"
  infinity := "inf"

def Scalar.quoted : Scalar → Except TextError String
  | null => .ok "None"
  | bool true => .ok "True"
  | bool false => .ok "False"
  | int n => if Numeral.maxDigits < digitCount n then .error .tooManyDigits else .ok (toString n)
  | double x => .ok (String.ofList (messageDoubles.write x))
  | str s => .ok (Reshape.quoted s)

/-- The text of a thing inside of others, where so many calls fit. -/
def Look.quoted {α : Type} (look : Look α) :
    (room : Nat) → (inside : List Nat) → α → Except TextError String
  | 0, _, _ => .error .tooDeep
  | room + 1, inside, a =>
    let again := (look.address? a).any inside.contains
    let within := (look.address? a).toList ++ inside
    match look.view a with
    | .scalar x => x.quoted
    | .list xs =>
      if again then .ok "[...]"
      else return "[" ++ ", ".intercalate (← xs.mapM (look.quoted room within)) ++ "]"
    | .obj ms =>
      if again then .ok "\x7b...\x7d"
      else return "\x7b" ++ ", ".intercalate (← ms.mapM fun (k, x) =>
        return Reshape.quoted k ++ ": " ++ (← look.quoted room within x)) ++ "\x7d"

namespace Value

def quoted (room : Nat) (v : Value) : Except TextError String :=
  look.quoted room [] v

/-- A text is shown as it is. Any other value takes one call more than its quoted text. -/
def display (room : Nat) : Value → Except TextError Text
  | str s => .ok s
  | v => return (← v.quoted (room - 1) : String)

/-- How a value that is not there at all is shown. -/
def absentText : String := "MISSING"

end Value

end Reshape

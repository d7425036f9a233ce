import Reshape.Path.Segment
import Reshape.Value

/-!
# Reading along a path

`Path.read` follows a path from a root. It goes on from one value until the first wildcard,
and from there on every segment is applied to all the values collected so far. Data that is
not there never stops a reading: it gives `none`, or `null` as the element of a collection.
What does stop it is a key of more digits than are read, looked up in a list.
-/

namespace Reshape

/-- The position in a list that a key stands for. -/
def listPosition? (key : Text) : Except TooManyDigits (Option Nat) :=
  let digits := Text.chars key
  if Numeral.isCanonical digits then some <$> Numeral.read digits else .ok none

/-- What a value holds under a key: a member of an object, or an element of a list. -/
def Value.under (v : Value) (key : Text) : Except TooManyDigits (Option Value) :=
  match v with
  | obj ms => .ok (Keyed.get? ms key)
  | list xs => do
    match ← listPosition? key with
    | some position => return xs[position]?
    | none => return none
  | _ => .ok none

/-- The values that a wildcard finds: the elements of a list, or the value itself. -/
def fanOut : Option Value → List Value
  | some (.list xs) => xs
  | some .null => []
  | some v => [v]
  | none => []

/-- The value that an index finds. -/
def pick (position : Nat) : Option Value → Option Value
  | some (.list xs) => xs[position]?
  | _ => none

/-- What one collected value gives to the next collection. -/
def Segment.spread (s : Segment) : Value → Except TooManyDigits (List Value)
  | .null => .ok []
  | item => do
    let found ← item.under s.key
    match s.access with
    | .plain => return [found.getD .null]
    | .index position => return [(pick position found).getD .null]
    | .wildcard => return fanOut found

namespace Path

/-- Applies each segment to all the values collected so far. -/
def readAll (items : List Value) : Path → Except TooManyDigits (List Value)
  | [] => .ok items
  | s :: rest => do readAll (← items.mapM s.spread).flatten rest

/-- Goes on from one value, which need not be there. -/
def readFrom (current : Option Value) : Path → Except TooManyDigits (Option Value)
  | [] => .ok current
  | s :: rest =>
    match current with
    | none => .ok none
    | some .null => .ok none
    | some v => do
      let found ← v.under s.key
      match s.access with
      | .plain => readFrom found rest
      | .index position => readFrom (pick position found) rest
      | .wildcard => return some (.list (← readAll (fanOut found) rest))

theorem readFrom_none (p : Path) : readFrom none p = .ok none := by
  cases p <;> rfl

theorem readFrom_null {p : Path} (hp : p ≠ []) : readFrom (some .null) p = .ok none := by
  cases p with
  | nil => exact absurd rfl hp
  | cons s rest => rfl

theorem readFrom_cons {v : Value} (hv : v ≠ .null) (s : Segment) (rest : Path) :
    readFrom (some v) (s :: rest) = do
      let found ← v.under s.key
      match s.access with
      | .plain => readFrom found rest
      | .index position => readFrom (pick position found) rest
      | .wildcard => return some (.list (← readAll (fanOut found) rest)) := by
  cases v with
  | null => exact absurd rfl hv
  | _ => rfl

def read (root : Value) (p : Path) : Except TooManyDigits (Option Value) :=
  readFrom (some root) p

/-- Reads by the text of a path. The empty text addresses nothing. -/
def readText (root : Value) (text : Text) : Except TooManyDigits (Option Value) :=
  if text = [] then .ok none else do (← Path.ofText text).read root

end Path

end Reshape

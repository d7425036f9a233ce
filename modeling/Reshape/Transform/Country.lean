import Reshape.Text.Symbol
import Reshape.Text.Upper
import Reshape.Transform.Registry
import Reshape.Transform.Territory

/-!
# Country names

The built-in transform turns a country code into the English name of the country, whatever
its case and the blanks around it. A code that no table knows is answered as it was looked up.
-/

namespace Reshape

namespace Country

/-- The form in which codes are looked up. -/
def normalize (code : Text) : Text :=
  upper (trim code)

/-- The name in the table, then the fallback name, then the code itself. A name that only
repeats the code, or is empty, does not count. -/
def nameOf (names : List (String × String)) (code : Text) : Text :=
  let code := normalize code
  let lookUp (table : List (String × String)) : Option Text :=
    ((Text.string? code).bind (List.lookup · table)).map Text.ofString
  match (lookUp names).filter fun name => decide (name ≠ [] ∧ name ≠ code) with
  | some name => name
  | none => (lookUp fallbackNames).getD code

/-- No name for `null` or the empty text. Other things are looked up as messages show them. -/
def ofCode (names : List (String × String)) (room : Nat) (s : Store) (code : Cell) :
    Except TextError (Option Text) :=
  match code with
  | .scalar .null => .ok none
  | .scalar (.str t) => .ok (if t = [] then none else some (nameOf names t))
  | code => return some (nameOf names (← s.look.quoted (room - 1) [] code : String))

def transform (names : List (String × String)) : Transform := fun room args s =>
  match args with
  | [] => (.value none, s)
  | [code] => match ofCode names room s code with
    | .ok name => (.value (name.map fun t => .scalar (.str t)), s)
    | .error e => (.failed (.broken (.ok e.message)), s)
  | args =>
    let message :=
      s!"country_from_iso() takes from 0 to 1 positional arguments but {args.length} were given"
    (.failed (.unfit message), s)

end Country

/-- The transforms that are always there. -/
def Registry.builtin : Registry :=
  ⟨[("countryFromISO", .function (Country.transform territoryNames))]⟩

end Reshape

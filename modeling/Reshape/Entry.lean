import Reshape.Store.Paths
import Reshape.Transform.Registry

/-!
# Entries

The values of a mapping say where the values of the output come from. `Entry.ofValue` sorts them: a
directive calls a transform, a source is skipped, taken literally or read from the record. The
arguments of a directive are sources too, so that a directive inside a directive is only an object.
`Source.resolve` comes to the cell that a source stands for. A mapping is a value of its own and no
part of the store, so a literal is given nodes of its own each time.
-/

namespace Reshape

namespace Keyword

def literal : Text := "$literal"

def transform : Text := "$transform"

def path : Text := "$path"

def args : Text := "$args"

end Keyword

inductive Source where
  /-- Deliberately left empty. -/
  | skip
  | literal (v : Value)
  | path (text : Text)
  deriving DecidableEq

structure Directive where
  /-- Any value can stand for the name; only a text can name a transform. -/
  name : Value
  args : List Source
  deriving DecidableEq

inductive Entry where
  | source (s : Source)
  | directive (d : Directive)
  deriving DecidableEq

namespace Source

/-- Only the first `=` marks a literal, so `==x` stands for `=x`. -/
def ofText : Text → Source
  | [] => skip
  | .char '=' :: rest => literal (.str rest)
  | t => path t

def ofValue : Value → Source
  | .null => skip
  | .str s => ofText s
  | .obj ms => match Keyed.get? ms Keyword.literal with
    | some v => literal v
    | none => literal (.obj ms)
  | v => literal v

end Source

namespace Directive

/-- The arguments as written: `$args`, where a value that is no list is the only argument,
or else `$path`. -/
def argumentValues (ms : Members) : List Value :=
  match Keyed.get? ms Keyword.args, Keyed.get? ms Keyword.path with
  | some (.list vs), _ => vs
  | some v, _ => [v]
  | none, some v => [v]
  | none, none => []

def ofMembers? (ms : Members) : Option Directive :=
  (Keyed.get? ms Keyword.transform).map fun name =>
    { name, args := (argumentValues ms).map Source.ofValue }

end Directive

namespace Entry

def ofValue : Value → Entry
  | .obj ms => match Directive.ofMembers? ms with
    | some d => directive d
    | none => source (Source.ofValue (.obj ms))
  | v => source (Source.ofValue v)

end Entry

/-! ### What a source stands for -/

/-- What stops the mapping of a record. -/
inductive Stop where
  | tooManyDigits (limit : TooManyDigits)
  /-- There is no room to copy a value. -/
  | tooDeep
  /-- A message cannot be made. -/
  | unshown (e : TextError)
  /-- A transform was aborted. -/
  | aborted
  deriving DecidableEq

/-- What an abort says is up to the transform. -/
def Stop.message : Stop → String
  | tooManyDigits limit => limit.message
  | tooDeep => "maximum recursion depth exceeded while calling a Python object"
  | unshown e => e.message
  | aborted => ""

/-- A step that can be stopped, and leaves the store in some state even then. -/
abbrev Run := ExceptT Stop (StateM Store)

namespace Run

/-- What a step comes to in a store, and the store that it leaves. -/
def within {α : Type} (x : Run α) (s : Store) : Except Stop α × Store :=
  x.run.run s

def ofExcept {α ε : Type} (stop : ε → Stop) : Except ε α → Run α
  | .ok a => return a
  | .error e => throw (stop e)

/-- Gives a value nodes of its own. Only what is a list or an object is copied for that. -/
def load (room : Nat) (v : Value) : Run Cell := fun s =>
  match Value.look.view v with
  | .scalar x => (.ok (.scalar x), s)
  | _ =>
    if room < v.roomToCopy then (.error .tooDeep, s)
    else
      let (c, s) := Reshape.load v s
      (.ok c, s)

/-- Copies what a cell leads to. -/
def copy (room : Nat) (c : Cell) : Run Cell := fun s =>
  match c with
  | .scalar x => (.ok (.scalar x), s)
  | .ref a =>
    match copyWithin room (.ref a) { store := s } with
    | (some d, p) => (.ok d, p.store)
    | (none, p) => (.error .tooDeep, p.store)

/-- Reads from a record. All that a wildcard finds is put into a list of its own. -/
def read (record : Cell) (text : Text) : Run (Option Cell) := fun s =>
  match s.look.readText record text with
  | .error limit => (.error (.tooManyDigits limit), s)
  | .ok none => (.ok none, s)
  | .ok (some (.one c)) => (.ok (some c), s)
  | .ok (some (.all cs)) => (.ok (some (.ref s.size)), s.push (.list cs))

/-- Calls a transform. -/
def call (found : Registered) (room : Nat) (args : List Cell) : Run Answer := fun s =>
  let (answer, s) := found.call room args s
  (.ok answer, s)

end Run

/-- The cell that a source stands for, if there is one. What is read is not copied. -/
def Source.resolve (room : Nat) (record : Cell) : Source → Run (Option Cell)
  | skip => return none
  | literal v => return some (← Run.load room v)
  | path text => Run.read record text

/-- Why something stands for no cell by itself. -/
inductive Unresolved where
  | stopped (stop : Stop)
  /-- A directive needs a registry. -/
  | directive
  /-- A value that was not sorted is no entry yet. -/
  | unsorted (v : Value)

/-- What is said of something that is not resolved, where so many calls fit. -/
def Unresolved.message (room : Nat) : Unresolved → Except TextError String
  | stopped stop => .ok stop.message
  | directive => .ok "Transform directives are evaluated by the mapping interpreter"
  | unsorted v => return s!"Unsupported mapping entry: {← v.quoted room}"

/-- The cell that an entry stands for without a registry, if there is one. -/
def Entry.resolve (room : Nat) (record : Cell) (store : Store) :
    Entry → Except Unresolved (Option Cell) × Store
  | .source s =>
    match (s.resolve room record).within store with
    | (.ok found, store) => (.ok found, store)
    | (.error stop, store) => (.error (.stopped stop), store)
  | .directive _ => (.error .directive, store)

end Reshape

import Reshape.Path.Read
import Reshape.Path.Write
import Reshape.Store

/-!
# Paths in a store

Reading and writing along paths where values are kept in a store. `Look.readText` reads from
whatever can be looked at, as `Path.readText` reads from a value: what it finds is a thing that is
there, or the list of all that a wildcard finds. `Canvas.write` writes into an output, along nodes
that may be shared: an object or a list on the way is entered where it is, and made where there is
none.
-/

namespace Reshape

/-! ### Reading -/

/-- What a path finds. -/
inductive Found (α : Type) where
  | one (a : α)
  | all (as : List α)

namespace Look

variable {α : Type} (look : Look α)

def isNull (a : α) : Bool :=
  look.view a matches .scalar .null

/-- What a thing holds under a key: a member of an object, or an element of a list. -/
def under (a : α) (key : Text) : Except TooManyDigits (Option α) :=
  match look.view a with
  | .obj ms => .ok (Keyed.get? ms key)
  | .list xs => do
    match ← listPosition? key with
    | some position => return xs[position]?
    | none => return none
  | .scalar _ => .ok none

/-- The elements of a list, a thing itself, and of `null` nothing. -/
def fanOut : Option α → List α
  | none => []
  | some a => match look.view a with
    | .list xs => xs
    | .scalar .null => []
    | _ => [a]

/-- The element of a list at a position. -/
def pick (position : Nat) : Option α → Option α
  | none => none
  | some a => match look.view a with
    | .list xs => xs[position]?
    | _ => none

/-- What one collected thing gives to the next collection. -/
def spread (s : Segment) (a : α) : Except TooManyDigits (List α) :=
  if look.isNull a then .ok []
  else do
    let found ← look.under a s.key
    match s.access with
    | .plain => return [found.getD (look.scalar .null)]
    | .index position => return [(look.pick position found).getD (look.scalar .null)]
    | .wildcard => return look.fanOut found

/-- Applies each segment to all the things collected so far. -/
def readAll (items : List α) : Path → Except TooManyDigits (List α)
  | [] => .ok items
  | s :: rest => do readAll (← items.mapM (look.spread s)).flatten rest

/-- Goes on from one thing, which need not be there. -/
def readFrom (current : Option α) : Path → Except TooManyDigits (Option (Found α))
  | [] => .ok (current.map .one)
  | s :: rest =>
    match current with
    | none => .ok none
    | some a =>
      if look.isNull a then .ok none
      else do
        let found ← look.under a s.key
        match s.access with
        | .plain => readFrom found rest
        | .index position => readFrom (look.pick position found) rest
        | .wildcard => return some (.all (← look.readAll (look.fanOut found) rest))

/-- Reads by the text of a path. The empty text addresses nothing. -/
def readText (root : α) (text : Text) : Except TooManyDigits (Option (Found α)) :=
  if text = [] then .ok none else do look.readFrom (some root) (← Path.ofText text)

end Look

/-! ### Writing -/

/-- An output, whose members nothing else leads to, and the store. -/
structure Canvas where
  members : Keyed Text Cell := []
  store : Store

/-- What is written into: the output itself, or an object in the store. -/
inductive Holder where
  | output
  | node (address : Nat)

namespace Canvas

def membersAt (c : Canvas) : Holder → Keyed Text Cell
  | .output => c.members
  | .node a => (c.store.members? (.ref a)).getD []

def put (c : Canvas) (h : Holder) (key : Text) (x : Cell) : Canvas :=
  match h with
  | .output => { c with members := Keyed.put c.members key x }
  | .node a => { c with store := c.store.put a (.obj (Keyed.put (c.membersAt h) key x)) }

/-- Makes a node and puts it under a key. -/
def make (c : Canvas) (h : Holder) (key : Text) (n : Node) : Canvas :=
  { c with store := c.store.push n }.put h key (.ref c.store.size)

/-- The address of the list under a key, which is made if there is none. -/
def listUnder (c : Canvas) (h : Holder) (key : Text) : Nat × Canvas :=
  match Keyed.get? (c.membersAt h) key with
  | some (.ref a) =>
    if (c.store.elements? (.ref a)).isSome then (a, c) else (c.store.size, c.make h key (.list []))
  | _ => (c.store.size, c.make h key (.list []))

/-- The address of the object under a key, which is made if there is none. -/
def objectUnder (c : Canvas) (h : Holder) (key : Text) : Nat × Canvas :=
  match Keyed.get? (c.membersAt h) key with
  | some (.ref a) =>
    if (c.store.members? (.ref a)).isSome then (a, c) else (c.store.size, c.make h key (.obj []))
  | _ => (c.store.size, c.make h key (.obj []))

/-- The address of the first element of a list, which is made an object if it is none. -/
def firstObject (c : Canvas) (a : Nat) : Nat × Canvas :=
  let cells := (c.store.elements? (.ref a)).getD []
  let made := { c with
    store := (c.store.push (.obj [])).put a (.list (.ref c.store.size :: cells.tail)) }
  match cells.head? with
  | some (.ref b) =>
    if (c.store.members? (.ref b)).isSome then (b, c) else (c.store.size, made)
  | _ => (c.store.size, made)

/-- Writes a cell along a target. A list that is written to the end of a list takes its place as a
list of its own, with the same elements. -/
def write (c : Canvas) (h : Holder) : Target → Cell → Canvas
  | [], _ => c
  | [.field k], x => c.put h k x
  | [.array k], x =>
    let (a, c) := c.listUnder h k
    match c.store.elements? x with
    | some cells => c.make h k (.list cells)
    | none =>
      { c with store := c.store.put a (.list ((c.store.elements? (.ref a)).getD [] ++ [x])) }
  | .field k :: rest, x =>
    let (a, c) := c.objectUnder h k
    write c (.node a) rest x
  | .array k :: rest, x =>
    let (a, c) := c.listUnder h k
    let (b, c) := c.firstObject a
    write c (.node b) rest x

def writeText (c : Canvas) (text : Text) (x : Cell) : Canvas :=
  c.write .output (Target.ofText text) x

/-- A cell that is not there leaves all as it is. -/
def writeOptional (c : Canvas) (text : Text) : Option Cell → Canvas
  | some x => c.writeText text x
  | none => c

end Canvas

end Reshape

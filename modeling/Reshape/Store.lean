import Reshape.Value

/-!
# Stores

Where values are kept while a mapping runs. A cell holds a scalar or leads to a node, and a node is
a list or an object of cells. Several cells can lead to one node, and what is written into the node
through one of them is seen through all. `load` gives a value nodes of its own; `copyWithin` gives a
copy of what a cell leads to nodes of its own, for which calls go as deep as the nodes nest.
-/

namespace Reshape

inductive Scalar where
  | null
  | bool (b : Bool)
  | int (n : Int)
  | double (x : Double)
  | str (s : Text)
  deriving DecidableEq

def Scalar.value : Scalar → Value
  | null => .null
  | bool b => .bool b
  | int n => .int n
  | double x => .double x
  | str s => .str s

/-! ### Looking at things -/

/-- What is seen of a thing that may hold others. -/
inductive View (α : Type) where
  | scalar (x : Scalar)
  | list (xs : List α)
  | obj (ms : Keyed Text α)

/-- How things are looked at, which of them are scalars, and where containers are kept, if they are
kept anywhere. -/
structure Look (α : Type) where
  view : α → View α
  scalar : Scalar → α
  address? : α → Option Nat

def Value.look : Look Value where
  view
    | .null => .scalar .null
    | .bool b => .scalar (.bool b)
    | .int n => .scalar (.int n)
    | .double x => .scalar (.double x)
    | .str s => .scalar (.str s)
    | .list xs => .list xs
    | .obj ms => .obj ms
  scalar := Scalar.value
  address? _ := none

/-! ### Cells and nodes -/

inductive Cell where
  | scalar (x : Scalar)
  | ref (address : Nat)
  deriving DecidableEq

inductive Node where
  | list (cells : List Cell)
  | obj (members : Keyed Text Cell)
  deriving DecidableEq

namespace Node

def cells : Node → List Cell
  | list cs => cs
  | obj ms => ms.map Prod.snd

/-- A node of the same kind and with the same names, with other cells. -/
def withCells : Node → List Cell → Node
  | list _, cs => list cs
  | obj ms, cs => obj (List.zipWith (fun m c => (m.1, c)) ms cs)

end Node

structure Store where
  nodes : Array Node := #[]
  deriving DecidableEq

namespace Store

def size (s : Store) : Nat :=
  s.nodes.size

def get? (s : Store) (address : Nat) : Option Node :=
  s.nodes[address]?

/-- The store with one more node, whose address is the size before. -/
def push (s : Store) (n : Node) : Store :=
  ⟨s.nodes.push n⟩

/-- The store with another node at an address. -/
def put (s : Store) (address : Nat) (n : Node) : Store :=
  ⟨s.nodes.setIfInBounds address n⟩

@[simp] theorem size_push (s : Store) (n : Node) : (s.push n).size = s.size + 1 := by
  simp [size, push]

@[simp] theorem size_put (s : Store) (a : Nat) (n : Node) : (s.put a n).size = s.size := by
  simp [size, put]

theorem get?_push (s : Store) (n : Node) (a : Nat) :
    (s.push n).get? a = if a = s.size then some n else s.get? a := by
  simp only [get?, push, size, Array.getElem?_push]
  rfl

theorem get?_put (s : Store) (a b : Nat) (n : Node) :
    (s.put a n).get? b = if a = b ∧ a < s.size then some n else s.get? b := by
  simp only [get?, put, size, Array.getElem?_setIfInBounds]
  split <;> simp_all

theorem get?_eq_none_iff (s : Store) (a : Nat) : s.get? a = none ↔ s.size ≤ a := by
  simp [get?, size]

theorem lt_size_of_get? {s : Store} {a : Nat} {n : Node} (h : s.get? a = some n) : a < s.size := by
  refine Nat.lt_of_not_le fun hle => ?_
  rw [(s.get?_eq_none_iff a).mpr hle] at h
  cases h

/-- The elements of a cell that leads to a list. -/
def elements? (s : Store) : Cell → Option (List Cell)
  | .scalar _ => none
  | .ref a => match s.get? a with
    | some (.list cs) => some cs
    | _ => none

/-- The members of a cell that leads to an object. -/
def members? (s : Store) : Cell → Option (Keyed Text Cell)
  | .scalar _ => none
  | .ref a => match s.get? a with
    | some (.obj ms) => some ms
    | _ => none

/-- A cell that leads nowhere looks like an empty list. -/
def look (s : Store) : Look Cell where
  view
    | .scalar x => .scalar x
    | .ref a => match s.get? a with
      | some (.obj ms) => .obj ms
      | some (.list cs) => .list cs
      | none => .list []
  scalar := .scalar
  address?
    | .scalar _ => none
    | .ref a => some a

end Store

/-! ### Loading -/

mutual

/-- Gives a value nodes of its own, those of the parts before those of the whole. -/
def load : Value → Store → Cell × Store
  | .null, s => (.scalar .null, s)
  | .bool b, s => (.scalar (.bool b), s)
  | .int n, s => (.scalar (.int n), s)
  | .double x, s => (.scalar (.double x), s)
  | .str t, s => (.scalar (.str t), s)
  | .list xs, s =>
    let (cells, s) := loadElements xs s
    (.ref s.size, s.push (.list cells))
  | .obj ms, s =>
    let (members, s) := loadMembers ms s
    (.ref s.size, s.push (.obj members))

def loadElements : List Value → Store → List Cell × Store
  | [], s => ([], s)
  | x :: xs, s =>
    let (c, s) := load x s
    let (cs, s) := loadElements xs s
    (c :: cs, s)

def loadMembers : List (Text × Value) → Store → Keyed Text Cell × Store
  | [], s => ([], s)
  | (k, v) :: ms, s =>
    let (c, s) := load v s
    let (rest, s) := loadMembers ms s
    ((k, c) :: rest, s)

end

/-! ### Copying -/

mutual

/-- How many calls have to fit for a part of a value to be copied. -/
def Value.roomToCopy : Value → Nat
  | .null | .bool _ | .int _ | .double _ | .str _ => 2
  | .list xs => max 3 (roomForElements xs + 2)
  | .obj ms => max 3 (roomForMembers ms + 2)

def Value.roomForElements : List Value → Nat
  | [] => 0
  | x :: xs => max x.roomToCopy (roomForElements xs)

def Value.roomForMembers : List (Text × Value) → Nat
  | [] => 0
  | (_, v) :: ms => max v.roomToCopy (roomForMembers ms)

end

/-- A copy in the making: which nodes have been copied to which, and the store. -/
structure Copier where
  memo : Keyed Nat Nat := []
  store : Store

/-- Copies cells one after the other, up to the first for which there is no room. -/
def copyEach (copy : Cell → Copier → Option Cell × Copier) :
    List Cell → Copier → Option (List Cell) × Copier
  | [], p => (some [], p)
  | c :: cs, p =>
    match copy c p with
    | (none, p) => (none, p)
    | (some d, p) =>
      let (ds, p) := copyEach copy cs p
      (ds.map (d :: ·), p)

/-- Copies what a cell leads to where so many calls fit. A node that several cells lead to is copied
once; it is there, with nothing in it, before its parts are copied, so that a part can lead back to
it. -/
def copyWithin : (room : Nat) → Cell → Copier → Option Cell × Copier
  | _ + 2, .scalar x, p => (some (.scalar x), p)
  | room + 2, .ref a, p =>
    match Keyed.get? p.memo a, p.store.get? a with
    | some b, _ => (some (.ref b), p)
    | none, none => (some (.ref a), p)
    | none, some node =>
      if room = 0 then (none, p)
      else
        let b := p.store.size
        match copyEach (copyWithin room) node.cells
            { memo := (a, b) :: p.memo, store := p.store.push (node.withCells []) } with
        | (none, p) => (none, p)
        | (some cs, p) => (some (.ref b), { p with store := p.store.put b (node.withCells cs) })
  | _, _, p => (none, p)

end Reshape

import Reshape.Keyed
import Reshape.Storage.PathName
import Reshape.Text.Quoted

/-!
# File trees

The files and directories that a program sees, by their place below the root. `resolve` follows
the steps of a name to a place that is there, or that could be made in a directory that is
there. Each operation answers with the tree it leaves behind, or with the reason why it did
nothing. The operations that change a tree are told which of its places are guarded against that.
-/

namespace Reshape

/-- Why the file system refuses an operation. -/
inductive FileError where
  | notFound
  | alreadyThere
  | notDirectory
  | isDirectory
  | nameTooLong
  | denied
  deriving DecidableEq, Repr

namespace FileError

def number : FileError → Nat
  | notFound => 2
  | denied => 13
  | alreadyThere => 17
  | notDirectory => 20
  | isDirectory => 21
  | nameTooLong => 36

def reason : FileError → String
  | notFound => "No such file or directory"
  | alreadyThere => "File exists"
  | notDirectory => "Not a directory"
  | isDirectory => "Is a directory"
  | nameTooLong => "File name too long"
  | denied => "Permission denied"

end FileError

/-- The names of the directories from the root down to a file, and its own. -/
abbrev Location := List Text

inductive FileNode where
  | file (bytes : ByteArray)
  | directory

namespace FileNode

/-- Files are alike if they hold the same bytes. -/
def decEq : (a b : FileNode) → Decidable (a = b)
  | file a, file b => decidable_of_iff (a.data = b.data) (by simp [ByteArray.ext_iff])
  | directory, directory => isTrue rfl
  | file _, directory => isFalse nofun
  | directory, file _ => isFalse nofun

instance : DecidableEq FileNode := decEq

end FileNode

structure FileTree where
  nodes : Keyed Location FileNode := []

namespace FileTree

/-- The root is always a directory. -/
def get? (t : FileTree) (place : Location) : Option FileNode :=
  if place = [] then some .directory else Keyed.get? t.nodes place

def put (t : FileTree) (place : Location) (node : FileNode) : FileTree :=
  ⟨Keyed.put t.nodes place node⟩

/-- No step is longer than this many bytes. -/
def maxStep : Nat := 255

/-- No name is this many bytes long. -/
def maxName : Nat := 4096

/-- Where steps lead from a directory. Only the last step need not be there. -/
def resolve (t : FileTree) (here : Location) : List Text → Except FileError Location
  | [] => .ok here
  | step :: rest =>
    if PathName.staysPut step then resolve t here rest
    else if PathName.goesUp step then resolve t here.dropLast rest
    else if maxStep < nameSize step then .error .nameTooLong
    else match t.get? (here ++ [step]) with
      | some .directory => resolve t (here ++ [step]) rest
      | some (.file _) => if rest = [] then .ok (here ++ [step]) else .error .notDirectory
      | none => if rest = [] then .ok (here ++ [step]) else .error .notFound

/-- The directory in which the steps of a name start. -/
def startingAt (home : Location) : Origin → Location
  | .home => home
  | .root | .doubleRoot => []

/-- Where a name leads, seen from the working directory. -/
def locate (t : FileTree) (home : Location) (p : PathName) : Except FileError Location :=
  if maxName ≤ nameSize p.text then .error .nameTooLong
  else t.resolve (startingAt home p.origin) p.steps

def read (t : FileTree) (home : Location) (p : PathName) : Except FileError ByteArray := do
  match t.get? (← t.locate home p) with
  | some (.file bytes) => return bytes
  | some .directory => throw .isDirectory
  | none => throw .notFound

/-- What is changed when something is put in a place: the file that is there or, if there is none,
the directory that it comes into. -/
def changed (t : FileTree) (place : Location) : Location :=
  if (t.get? place).isSome then place else place.dropLast

/-- Makes a file, or replaces the content of one, unless what is changed is guarded. -/
def write (t : FileTree) (home : Location) (p : PathName) (bytes : ByteArray)
    (guarded : optParam (List Location) []) : Except FileError FileTree := do
  let place ← t.locate home p
  match t.get? place with
  | some .directory => throw .isDirectory
  | _ =>
    if t.changed place ∈ guarded then throw .denied
    else return t.put place (.file bytes)

/-- Makes a directory in one that is there, unless that one is guarded. -/
def makeDirectory (t : FileTree) (home : Location) (p : PathName)
    (guarded : optParam (List Location) []) : Except FileError FileTree := do
  let place ← t.locate home p
  match t.get? place with
  | some _ => throw .alreadyThere
  | none =>
    if t.changed place ∈ guarded then throw .denied
    else return t.put place .directory

def isDirectory (t : FileTree) (home : Location) (p : PathName) : Bool :=
  match t.locate home p with
  | .ok place => t.get? place == some .directory
  | .error _ => false

/-- Whether a name leads to a place that is not guarded. -/
def isOpen (t : FileTree) (home : Location) (p : PathName) (guarded : List Location) : Bool :=
  match t.locate home p with
  | .ok place => place ∉ guarded
  | .error _ => false

/-- A refusal, with the name that was refused. -/
structure Refusal where
  path : PathName
  error : FileError
  deriving DecidableEq, Repr

def Refusal.message (r : Refusal) : String :=
  s!"[Errno {r.error.number}] {r.error.reason}: {quoted r.path.text}"

/-- Makes a directory whose parent was made before. One that is there already will do. -/
def ensureDirectory (t : FileTree) (home : Location) (p : PathName)
    (guarded : optParam (List Location) []) : Except Refusal FileTree :=
  match t.makeDirectory home p guarded with
  | .ok made => .ok made
  | .error .notFound => .error ⟨p, .notFound⟩
  | .error e => if t.isDirectory home p then .ok t else .error ⟨p, e⟩

/-- Makes a directory and those above it that are not there, given the steps of its name from
the last to the first. What was made before a refusal stays. -/
def makeDirectories (t : FileTree) (home : Location) (origin : Origin) (upwards : List Text)
    (guarded : optParam (List Location) []) : FileTree × Option Refusal :=
  match upwards with
  | [] =>
    match t.ensureDirectory home ⟨origin, []⟩ guarded with
    | .ok made => (made, none)
    | .error refusal => (t, some refusal)
  | last :: above =>
    match t.ensureDirectory home ⟨origin, (last :: above).reverse⟩ guarded with
    | .ok made => (made, none)
    | .error ⟨p, .notFound⟩ =>
      match t.makeDirectories home origin above guarded with
      | (made, some refusal) => (made, some refusal)
      | (made, none) =>
        match made.ensureDirectory home p guarded with
        | .ok made => (made, none)
        | .error refusal => (made, some refusal)
    | .error refusal => (t, some refusal)

end FileTree

end Reshape

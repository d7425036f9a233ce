import Reshape.Text.Utf8

/-!
# Path names

The name of a file or directory as a program is given it: steps from the working directory or
from the root. Reading a name drops empty steps and steps to the same directory, and keeps steps
upwards. The file system takes names as bytes, so not every text can be one (`nameFlaw?`).
-/

namespace Reshape

/-- Where the steps of a name start. -/
inductive Origin where
  | home
  | root
  /-- The root, written as two slashes. -/
  | doubleRoot
  deriving DecidableEq, Repr

namespace Origin

/-- What stands before the steps. -/
def text : Origin → Text
  | home => []
  | root => [.char '/']
  | doubleRoot => [.char '/', .char '/']

/-- Two slashes are kept apart from one; more of them are one. -/
def ofText (text : Text) : Origin :=
  match (text.takeWhile (· == .char '/')).length with
  | 0 => home
  | 2 => doubleRoot
  | _ => root

end Origin

structure PathName where
  origin : Origin
  steps : List Text
  deriving DecidableEq, Repr

namespace PathName

/-- The steps of a text as they stand, the empty ones too. -/
def rawSteps (text : Text) : List Text :=
  text.splitOn (.char '/')

/-- Whether a step leads nowhere else. -/
def staysPut (step : Text) : Bool :=
  step == [] || step == [.char '.']

def goesUp (step : Text) : Bool :=
  step == [.char '.', .char '.']

def ofText (text : Text) : PathName where
  origin := .ofText text
  steps := (rawSteps text).filter fun step => !staysPut step

def text (p : PathName) : Text :=
  match p.origin, p.steps with
  | .home, [] => [.char '.']
  | origin, steps => origin.text ++ [.char '/'].intercalate steps

def parent (p : PathName) : PathName :=
  { p with steps := p.steps.dropLast }

end PathName

/-- Why a text can be the name of no file. -/
inductive NameFlaw where
  | null
  | unencodable (flaw : Utf8.Unencodable)
  deriving DecidableEq, Repr

def NameFlaw.message : NameFlaw → String
  | null => "embedded null byte"
  | unencodable flaw => flaw.message

/-- The halves from U+DC80 to U+DCFF stand for bytes that are no part of a character. -/
def isStrayByte : Symbol → Bool
  | .char _ => false
  | .half offset => 0x480 ≤ offset.val && offset.val < 0x500

/-- A name needs bytes, and none of them may be zero. -/
def nameFlaw? (name : Text) : Option NameFlaw :=
  match Utf8.unencodable? (fun s => s.isHalf && !isStrayByte s) name with
  | some flaw => some (.unencodable flaw)
  | none => if name.contains (.char '\x00') then some .null else none

/-- How many bytes a name has. A half in it is one byte. -/
def nameSize (name : Text) : Nat :=
  name.foldr (fun s size => (s.char?.map Char.utf8Size).getD 1 + size) 0

end Reshape

import Reshape.Value

/-!
# The depth of documents

Containers nest only so deep in a document, whether it is read or written.
-/

namespace Reshape

namespace Value

mutual

/-- How many containers are around the innermost place of a value. -/
def depth : Value → Nat
  | null | bool _ | int _ | double _ | str _ => 0
  | list xs => depthOfElements xs + 1
  | obj ms => depthOfMembers ms + 1

def depthOfElements : List Value → Nat
  | [] => 0
  | x :: xs => max (depth x) (depthOfElements xs)

def depthOfMembers : List (Text × Value) → Nat
  | [] => 0
  | (_, v) :: ms => max (depth v) (depthOfMembers ms)

end

end Value

namespace Json

/-- Containers nest this deep at most. -/
def nestingLimit : Nat := 985

/-- A value nests too deep to be written. -/
inductive DepthError where
  | onOneLine
  | inPieces
  deriving DecidableEq, Repr

def DepthError.message : DepthError → String
  | onOneLine => "maximum recursion depth exceeded while encoding a JSON object"
  | inPieces => "maximum recursion depth exceeded while calling a Python object"

end Json

end Reshape

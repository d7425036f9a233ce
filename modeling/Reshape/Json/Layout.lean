import Reshape.Text.Symbol

/-!
# Layouts

How a document is laid out: on one line, or over several lines with each element on its own.
`Layout.ofIndent` makes the layout for an indentation, whose spaces have to fit in memory.
-/

namespace Reshape.Json

inductive Layout where
  | compact
  /-- Each element on a line of its own, `width` spaces deeper than what holds it. -/
  | indented (width : Nat)
  deriving DecidableEq, Repr

/-- Why there is no layout for an indentation. -/
inductive IndentError where
  /-- The number does not fit a signed word of 64 bits. -/
  | beyondWord
  /-- There is no memory for so many spaces. -/
  | noMemory
  deriving DecidableEq, Repr

def IndentError.message : IndentError → String
  | beyondWord => "cannot fit 'int' into an index-sized integer"
  | noMemory => ""

namespace Layout

def fitsWord (n : Int) : Bool :=
  -0x8000000000000000 ≤ n && n < 0x8000000000000000

/-- A negative indentation is none, and without any all is on one line. A text can be as long as
`memory` says. -/
def ofIndent (memory : Nat) : Option Int → Except IndentError Layout
  | none => .ok compact
  | some n =>
    if !fitsWord n then .error .beyondWord
    else if memory < n.toNat then .error .noMemory
    else .ok (indented n.toNat)

/-- What stands between a bracket and the elements at this depth. -/
def margin : Layout → Nat → Text
  | compact, _ => []
  | indented width, depth => .char '\n' :: List.replicate (width * depth) (.char ' ')

/-- What stands between two elements at this depth. -/
def separator : Layout → Nat → Text
  | compact, _ => [.char ',', .char ' ']
  | indented width, depth => .char ',' :: margin (indented width) depth

end Layout

end Reshape.Json

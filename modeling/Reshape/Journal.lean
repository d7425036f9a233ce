import Reshape.Text.Symbol

/-!
# The journal

What a run notes down as it goes. A line has a level, and a journal is shown from some level
on.
-/

namespace Reshape

inductive Level where
  | debug
  | info
  | warning
  | error
  deriving DecidableEq, Repr

namespace Level

def label : Level → String
  | debug => "DEBUG"
  | info => "INFO"
  | warning => "WARNING"
  | error => "ERROR"

def rank : Level → Nat
  | debug => 0
  | info => 1
  | warning => 2
  | error => 3

end Level

structure Line where
  level : Level
  message : Text
  deriving DecidableEq, Repr

abbrev Journal := List Line

namespace Journal

/-- The lines of a level and all above it. -/
def atLeast (least : Level) (journal : Journal) : Journal :=
  journal.filter fun line => decide (least.rank ≤ line.level.rank)

end Journal

end Reshape

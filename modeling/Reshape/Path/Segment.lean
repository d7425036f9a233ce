import Reshape.Number.Numeral
import Reshape.Text.Quoted

/-!
# Path segments

A path addresses values inside a document. Its text is split at the dots, and
each piece is a `Segment`: a key, and how to go on from the value under it.
`Segment.ofText` reads one piece, `Segment.text` writes it. Every text is a
segment: what does not follow the grammar is a plain key as a whole.
-/

namespace Reshape

/-- How a segment goes on from the value under its key. -/
inductive Access where
  /-- Take the value itself. -/
  | plain
  /-- Take one member of the list. -/
  | index (position : Nat)
  /-- Fan out over the members of the list. -/
  | wildcard
  deriving DecidableEq, Repr

structure Segment where
  key : Text
  access : Access := .plain
  deriving DecidableEq, Repr

abbrev Path := List Segment

namespace Access

/-- What stands after the key. -/
def suffix : Access → Text
  | plain => []
  | index n => .char '[' :: Text.ofChars (Nat.toDigits 10 n) ++ [.char ']']
  | wildcard => [.char '[', .char ']']

def label : Access → String
  | plain => "plain"
  | index _ => "index"
  | wildcard => "wildcard"

end Access

namespace Segment

def isWildcard (s : Segment) : Bool :=
  s.access matches .wildcard

def text (s : Segment) : Text :=
  s.key ++ s.access.suffix

/-- The digits of a bracketed suffix, none for `[]`. -/
def bracketed? : Text → Option (List Char)
  | .char '[' :: rest =>
    if rest.getLast? = some (.char ']') ∧ rest.dropLast.all (Symbol.satisfies Char.isDigit) then
      some (Text.chars rest.dropLast)
    else none
  | _ => none

/-- A key without `[`, then nothing, `[]` or `[digits]`; anything else is a plain key. -/
def ofText (piece : Text) : Except TooManyDigits Segment :=
  let key := piece.takeWhile (· != .char '[')
  match bracketed? (piece.dropWhile (· != .char '[')) with
  | some digits =>
    if key = [] then .ok { key := piece }
    else if digits = [] then .ok { key, access := .wildcard }
    else return { key, access := .index (← Numeral.read digits) }
  | none => .ok { key := piece }

/-- Why three parts make no segment. -/
inductive Refusal where
  | unknownMode (mode : Text)
  | noIndex
  | strayIndex (access : Access)
  deriving DecidableEq, Repr

def Refusal.message : Refusal → String
  | unknownMode mode => s!"{quoted mode} is not a valid SegmentMode"
  | noIndex => "index segments require a non-negative index"
  | strayIndex access => s!"{access.label} segments cannot carry an index"

/-- A segment from the name of its mode and its index, if any. -/
def ofParts (key mode : Text) (index : Option Int) : Except Refusal Segment :=
  match Text.string? mode, index with
  | some "plain", none => .ok { key }
  | some "plain", some _ => .error (.strayIndex .plain)
  | some "wildcard", none => .ok { key, access := .wildcard }
  | some "wildcard", some _ => .error (.strayIndex .wildcard)
  | some "index", some (.ofNat n) => .ok { key, access := .index n }
  | some "index", _ => .error .noIndex
  | _, _ => .error (.unknownMode mode)

end Segment

namespace Path

/-- The pieces of a path's text. -/
def pieces (text : Text) : List Text :=
  text.splitOn (.char '.')

/-- Reads the pieces from left to right. -/
def ofText (text : Text) : Except TooManyDigits Path :=
  (pieces text).mapM Segment.ofText

def text (p : Path) : Text :=
  [.char '.'].intercalate (p.map Segment.text)

def hasWildcard (p : Path) : Bool :=
  p.any Segment.isWildcard

theorem hasWildcard_cons (s : Segment) (p : Path) :
    hasWildcard (s :: p) = (s.isWildcard || p.hasWildcard) := rfl

end Path

end Reshape

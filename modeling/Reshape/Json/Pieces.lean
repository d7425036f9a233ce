import Reshape.Json.Printer
import Reshape.Store

/-!
# Documents piece by piece

A file gets a document in pieces: a piece ends after each bracket, name and scalar. All pieces
together are the document (`joinPieces_pieces`); where one of them cannot be written, those before
it have been. A piece comes with the number of containers it belongs to.
-/

namespace Reshape.Json

structure Piece where
  depth : Nat
  text : Text
  /-- How many digits the integer has that the piece ends with, if it ends with one. -/
  digits : Nat := 0
  /-- Whether the piece belongs to a container inside of itself. -/
  circular : Bool := false
  deriving DecidableEq, Repr

/-- Why a piece cannot be printed. -/
inductive PieceFlaw where
  | tooDeep
  | circular
  | tooManyDigits
  deriving DecidableEq, Repr

def PieceFlaw.message : PieceFlaw → String
  | tooDeep => DepthError.inPieces.message
  | circular => "Circular reference detected"
  | tooManyDigits => tooManyToWrite

def Piece.flaw? (p : Piece) : Option PieceFlaw :=
  if nestingLimit < p.depth then some .tooDeep
  else if p.circular then some .circular
  else if Numeral.maxDigits < p.digits then some .tooManyDigits
  else none

/-- Pieces of the same containers. -/
def piecesOf (depth : Nat) (texts : List Text) : List Piece :=
  texts.map fun text => { depth, text }

mutual

/-- The pieces of a value inside `depth` containers, where `lead` comes before the value. It is
in one piece with a scalar. -/
def piecesAt (layout : Layout) (depth : Nat) (lead : Text) : Value → List Piece
  | .list [] =>
    [{ depth, text := lead }, { depth := depth + 1, text := [.char '[', .char ']'] }]
  | .list (x :: xs) =>
    { depth, text := lead } ::
      piecesAt layout (depth + 1) (.char '[' :: layout.margin (depth + 1)) x ++
      elementPieces layout (depth + 1) xs ++
      piecesOf (depth + 1) [layout.margin depth, [.char ']']]
  | .obj [] =>
    [{ depth, text := lead }, { depth := depth + 1, text := [.char '\x7b', .char '\x7d'] }]
  | .obj ((k, v) :: ms) =>
    { depth, text := lead } ::
      piecesOf (depth + 1) [[.char '\x7b'], layout.margin (depth + 1), printString k, colon] ++
      piecesAt layout (depth + 1) [] v ++ memberPieces layout (depth + 1) ms ++
      piecesOf (depth + 1) [layout.margin depth, [.char '\x7d']]
  | .null => [{ depth, text := lead ++ printAt layout depth .null }]
  | .bool b => [{ depth, text := lead ++ printAt layout depth (.bool b) }]
  | .int n => [{ depth, text := lead ++ printAt layout depth (.int n), digits := digitCount n }]
  | .double x => [{ depth, text := lead ++ printAt layout depth (.double x) }]
  | .str s => [{ depth, text := lead ++ printAt layout depth (.str s) }]

/-- The elements after the first. -/
def elementPieces (layout : Layout) (depth : Nat) : List Value → List Piece
  | [] => []
  | x :: xs => piecesAt layout depth (layout.separator depth) x ++ elementPieces layout depth xs

/-- The members after the first. -/
def memberPieces (layout : Layout) (depth : Nat) : List (Text × Value) → List Piece
  | [] => []
  | (k, v) :: ms =>
    piecesOf depth [layout.separator depth, printString k, colon] ++
      piecesAt layout depth [] v ++ memberPieces layout depth ms

end

def pieces (layout : Layout) (v : Value) : List Piece :=
  piecesAt layout 0 [] v

/-- The pieces of what a cell leads to, which is inside of the nodes at some addresses. They end
with one that cannot be printed where the nodes nest deeper than `fuel`, or one is inside of itself.
-/
def cellPieces (s : Store) (layout : Layout) :
    (fuel : Nat) → (inside : List Nat) → (depth : Nat) → (lead : Text) → Cell → List Piece
  | _, _, depth, lead, .scalar x => piecesAt layout depth lead x.value
  | 0, _, depth, lead, .ref _ => [{ depth, text := lead }, { depth := depth + 1, text := [] }]
  | fuel + 1, inside, depth, lead, .ref a =>
    match s.get? a with
    | none | some (.list []) => piecesAt layout depth lead (.list [])
    | some (.obj []) => piecesAt layout depth lead (.obj [])
    | some (.list (c :: cs)) =>
      if inside.contains a then
        [{ depth, text := lead }, { depth := depth + 1, text := [], circular := true }]
      else
        { depth, text := lead } ::
          cellPieces s layout fuel (a :: inside) (depth + 1)
            (.char '[' :: layout.margin (depth + 1)) c ++
          cs.flatMap (cellPieces s layout fuel (a :: inside) (depth + 1)
            (layout.separator (depth + 1))) ++
          piecesOf (depth + 1) [layout.margin depth, [.char ']']]
    | some (.obj ((k, c) :: ms)) =>
      if inside.contains a then
        [{ depth, text := lead }, { depth := depth + 1, text := [], circular := true }]
      else
        { depth, text := lead } ::
          piecesOf (depth + 1) [[.char '\x7b'], layout.margin (depth + 1), printString k, colon] ++
          cellPieces s layout fuel (a :: inside) (depth + 1) [] c ++
          ms.flatMap (fun (k, c) =>
            piecesOf (depth + 1) [layout.separator (depth + 1), printString k, colon] ++
              cellPieces s layout fuel (a :: inside) (depth + 1) [] c) ++
          piecesOf (depth + 1) [layout.margin depth, [.char '\x7d']]

/-- How a document is written in each layout. -/
abbrev Drawing := Layout → List Piece

def drawing (v : Value) : Drawing :=
  fun layout => pieces layout v

def cellDrawing (s : Store) (c : Cell) : Drawing :=
  fun layout => cellPieces s layout nestingLimit [] 0 [] c

/-- What all pieces come to. -/
def joinPieces (ps : List Piece) : Text :=
  ps.flatMap Piece.text

@[simp] theorem joinPieces_nil : joinPieces [] = [] := rfl

@[simp] theorem joinPieces_cons (p : Piece) (ps : List Piece) :
    joinPieces (p :: ps) = p.text ++ joinPieces ps := by
  simp [joinPieces]

@[simp] theorem joinPieces_append (ps qs : List Piece) :
    joinPieces (ps ++ qs) = joinPieces ps ++ joinPieces qs := by
  simp [joinPieces]

@[simp] theorem joinPieces_piecesOf (depth : Nat) (texts : List Text) :
    joinPieces (piecesOf depth texts) = texts.flatten := by
  simp [joinPieces, piecesOf, List.flatMap_map]

mutual

theorem joinPieces_piecesAt (layout : Layout) (depth : Nat) (lead : Text) : (v : Value) →
    joinPieces (piecesAt layout depth lead v) = lead ++ printAt layout depth v
  | .null | .bool _ | .int _ | .double _ | .str _ => by simp [piecesAt]
  | .list [] => by simp [piecesAt, printAt]
  | .list (x :: xs) => by
    simp [piecesAt, printAt, joinPieces_piecesAt layout (depth + 1) _ x,
      joinPieces_elementPieces layout (depth + 1) xs]
  | .obj [] => by simp [piecesAt, printAt]
  | .obj ((k, v) :: ms) => by
    simp [piecesAt, printAt, joinPieces_piecesAt layout (depth + 1) _ v,
      joinPieces_memberPieces layout (depth + 1) ms]

theorem joinPieces_elementPieces (layout : Layout) (depth : Nat) : (xs : List Value) →
    joinPieces (elementPieces layout depth xs) = printElements layout depth xs
  | [] => by simp [elementPieces, printElements]
  | x :: xs => by
    simp [elementPieces, printElements, joinPieces_piecesAt layout depth _ x,
      joinPieces_elementPieces layout depth xs]

theorem joinPieces_memberPieces (layout : Layout) (depth : Nat) :
    (ms : List (Text × Value)) →
    joinPieces (memberPieces layout depth ms) = printMembers layout depth ms
  | [] => by simp [memberPieces, printMembers]
  | (k, v) :: ms => by
    simp [memberPieces, printMembers, joinPieces_piecesAt layout depth _ v,
      joinPieces_memberPieces layout depth ms]

end

theorem joinPieces_pieces (layout : Layout) (v : Value) :
    joinPieces (pieces layout v) = print layout v := by
  simp [pieces, print, joinPieces_piecesAt]

end Reshape.Json

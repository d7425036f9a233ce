import Reshape.Json.Depth
import Reshape.Json.NumberToken
import Reshape.Json.Quote

/-!
# Reading documents

`decode` reads a whole text as one value. `readValue` is a recursion on how deep containers
may still nest; the members of one container are a loop of their own, which needs a bound on
their number, and the length of the text is one.
-/

namespace Reshape.Json

def isSpace : Symbol → Bool :=
  Symbol.satisfies fun c => c == ' ' || c == '\t' || c == '\n' || c == '\r'

def skipSpace (t : Text) : Text :=
  t.dropWhile isSpace

/-- The words that stand for values. -/
def words : List (String × Value) :=
  [("null", .null), ("true", .bool true), ("false", .bool false), ("NaN", .double .nan),
   ("Infinity", .double (.infinity false)), ("-Infinity", .double (.infinity true))]

/-- What comes after a word. -/
def afterWord? (word : String) (t : Text) : Option Text :=
  if (word : Text).isPrefixOf t then some (t.drop word.length) else none

def word? (t : Text) : Option (Value × Text) :=
  words.findSome? fun (word, v) => (afterWord? word t).map (v, ·)

/-- A value that is no container. -/
def readScalar (t : Text) : Except ReadError (Value × Text) :=
  match t with
  | .char '"' :: rest => do
    let (s, rest) ← readQuoted rest
    return (.str s, rest)
  | t => match word? t with
    | some found => .ok found
    | none => readNumber t

/-- One or more elements with commas between them, up to the closing bracket. -/
def readElements (item : Reader Value) : Nat → Reader (List Value)
  | 0, t => .error (.malformed .expectingValue t)
  | fuel + 1, t => do
    let (v, t) ← item t
    match skipSpace t with
    | .char ']' :: rest => return ([v], rest)
    | .char ',' :: rest => do
      let (vs, rest) ← readElements item fuel (skipSpace rest)
      return (v :: vs, rest)
    | t => .error (.malformed .expectingComma t)

/-- A list, from after its opening bracket. -/
def readList (item : Reader Value) (fuel : Nat) (t : Text) : Except ReadError (Value × Text) :=
  match skipSpace t with
  | .char ']' :: rest => .ok (.list [], rest)
  | t => do
    let (vs, rest) ← readElements item fuel t
    return (.list vs, rest)

/-- A name, a colon and a value. -/
def readMember (item : Reader Value) (t : Text) : Except ReadError ((Text × Value) × Text) :=
  match t with
  | .char '"' :: t => do
    let (name, t) ← readQuoted t
    match skipSpace t with
    | .char ':' :: t => do
      let (v, t) ← item (skipSpace t)
      return ((name, v), t)
    | t => .error (.malformed .expectingColon t)
  | t => .error (.malformed .expectingName t)

/-- One or more members with commas between them, up to the closing brace. -/
def readMembers (item : Reader Value) : Nat → Reader (List (Text × Value))
  | 0, t => .error (.malformed .expectingName t)
  | fuel + 1, t => do
    let (m, t) ← readMember item t
    match skipSpace t with
    | .char '\x7d' :: rest => return ([m], rest)
    | .char ',' :: rest => do
      let (ms, rest) ← readMembers item fuel (skipSpace rest)
      return (m :: ms, rest)
    | t => .error (.malformed .expectingComma t)

/-- An object, from after its opening brace. -/
def readObject (item : Reader Value) (fuel : Nat) (t : Text) : Except ReadError (Value × Text) :=
  match skipSpace t with
  | .char '\x7d' :: rest => .ok (.obj [], rest)
  | t => do
    let (ms, rest) ← readMembers item fuel t
    return (.obj (Keyed.ofList ms), rest)

/-- A value whose containers nest no deeper than the second argument. -/
def readValue (fuel : Nat) : Nat → Reader Value
  | 0, t => match t with
    | .char '[' :: _ => .error (.tooDeep .array)
    | .char '\x7b' :: _ => .error (.tooDeep .object)
    | t => readScalar t
  | depth + 1, t => match t with
    | .char '[' :: rest => readList (readValue fuel depth) fuel rest
    | .char '\x7b' :: rest => readObject (readValue fuel depth) fuel rest
    | t => readScalar t

/-- A value with space around it and nothing else. -/
def readText (t : Text) : Except ReadError Value :=
  match t with
  | .char '\uFEFF' :: _ => .error (.malformed .byteOrderMark t)
  | _ => do
    let (v, rest) ← readValue t.length nestingLimit (skipSpace t)
    match skipSpace rest with
    | [] => return v
    | rest => .error (.malformed .extraData rest)

/-- The value that a text holds. -/
def decode (text : Text) : Except DecodeError Value :=
  (readText text).mapError (·.inText text)

end Reshape.Json

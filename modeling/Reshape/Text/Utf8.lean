import Reshape.Text.Quoted

/-!
# Bytes as text

A file holds text in UTF-8. Where its bytes are not well formed, `flaw` says which of them are
at fault: the start of a character that is cut off at the end, or broken off by a byte that
cannot go on with it, or a byte that no character starts with. The other way round, a text with
halves of surrogate pairs in it has no bytes, and `unencodable?` says where they are. Which halves
are refused is up to what the text is for.
-/

namespace Reshape

namespace Utf8

inductive FlawKind where
  | invalidStart
  | invalidContinuation
  | unexpectedEnd
  deriving DecidableEq, Repr

def FlawKind.reason : FlawKind → String
  | invalidStart => "invalid start byte"
  | invalidContinuation => "invalid continuation byte"
  | unexpectedEnd => "unexpected end of data"

/-- The bytes `bytes` from position `start` on are at fault. -/
structure Flaw where
  kind : FlawKind
  start : Nat
  bytes : List UInt8
  deriving DecidableEq, Repr

/-- How many bytes follow a first byte, and the bounds of the next one. -/
def following? (b : UInt8) : Option (Nat × UInt8 × UInt8) :=
  if b < 0x80 then some (0, 0x80, 0xBF)
  else if b < 0xC2 then none
  else if b < 0xE0 then some (1, 0x80, 0xBF)
  else if b = 0xE0 then some (2, 0xA0, 0xBF)
  else if b = 0xED then some (2, 0x80, 0x9F)
  else if b < 0xF0 then some (2, 0x80, 0xBF)
  else if b = 0xF0 then some (3, 0x90, 0xBF)
  else if b = 0xF4 then some (3, 0x80, 0x8F)
  else if b < 0xF4 then some (3, 0x80, 0xBF)
  else none

/-- How far a character goes: `count` more bytes are due, the next one between the bounds. The
bytes read so far come in reverse. -/
def scanCharacter (read : List UInt8) : Nat → UInt8 → UInt8 → List UInt8 →
    Except (FlawKind × List UInt8) (List UInt8)
  | 0, _, _, rest => .ok rest
  | _ + 1, _, _, [] => .error (.unexpectedEnd, read.reverse)
  | count + 1, low, high, b :: rest =>
    if low ≤ b && b ≤ high then scanCharacter (b :: read) count 0x80 0xBF rest
    else .error (.invalidContinuation, read.reverse)

/-- The first flaw, where `position` bytes came before and `fuel` bounds the characters. -/
def firstFlaw? (position : Nat) : Nat → List UInt8 → Option Flaw
  | 0, _ => none
  | _, [] => none
  | fuel + 1, b :: rest =>
    match following? b with
    | none => some ⟨.invalidStart, position, [b]⟩
    | some (count, low, high) =>
      match scanCharacter [b] count low high rest with
      | .error (kind, bytes) => some ⟨kind, position, bytes⟩
      | .ok rest => firstFlaw? (position + 1 + count) fuel rest

/-- The first flaw of bytes that are not well formed. -/
def flaw (bytes : ByteArray) : Flaw :=
  (firstFlaw? 0 bytes.size bytes.data.toList).getD ⟨.unexpectedEnd, bytes.size, []⟩

def hexByte (b : UInt8) : String :=
  String.ofList (if b < 16 then '0' :: Nat.toDigits 16 b.toNat else Nat.toDigits 16 b.toNat)

def Flaw.message (f : Flaw) : String :=
  match f.bytes with
  | [b] =>
    s!"'utf-8' codec can't decode byte 0x{hexByte b} in position {f.start}: {f.kind.reason}"
  | bytes =>
    let last := f.start + bytes.length - 1
    s!"'utf-8' codec can't decode bytes in position {f.start}-{last}: {f.kind.reason}"

/-- Halves of surrogate pairs from position `start` on: `first`, and `more` after it. -/
structure Unencodable where
  start : Nat
  first : Fin 0x800
  more : Nat
  deriving DecidableEq, Repr

/-- The first half that is refused in a text, with the halves that stand next to it. -/
def unencodable? (refused : Symbol → Bool) (t : Text) : Option Unencodable :=
  let before := t.takeWhile (!refused ·)
  match t.drop before.length with
  | .half first :: rest =>
    some { start := before.length, first, more := (rest.takeWhile Symbol.isHalf).length }
  | _ => none

def Unencodable.message (e : Unencodable) : String :=
  if e.more = 0 then
    s!"'utf-8' codec can't encode character {quoted [.half e.first]} in position {e.start}" ++
      ": surrogates not allowed"
  else
    s!"'utf-8' codec can't encode characters in position {e.start}-{e.start + e.more}" ++
      ": surrogates not allowed"

end Utf8

/-- A carriage return, alone or before a line feed, is read as a line feed. -/
def unifyLineEnds : List Char → List Char
  | '\r' :: '\n' :: rest => '\n' :: unifyLineEnds rest
  | '\r' :: rest => '\n' :: unifyLineEnds rest
  | c :: rest => c :: unifyLineEnds rest
  | [] => []

end Reshape

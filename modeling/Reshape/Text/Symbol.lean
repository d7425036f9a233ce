/-!
# Texts

A document can hold half of a surrogate pair without the other half, which is no character. So
a text is a list of symbols: characters, and such halves. `Text.string?` gives the string that
a text is, if it has no halves in it.
-/

namespace Reshape

inductive Symbol where
  | char (c : Char)
  /-- Half of a surrogate pair, by its distance from the first of all halves. -/
  | half (offset : Fin 0x800)
  deriving DecidableEq, Repr

abbrev Text := List Symbol

namespace Symbol

def code : Symbol → Nat
  | char c => c.toNat
  | half offset => 0xD800 + offset

/-- The symbol with a code below 0x110000. -/
def ofCode (n : Nat) : Symbol :=
  if h : 0xD800 ≤ n ∧ n < 0xE000 then half ⟨n - 0xD800, by omega⟩ else char (Char.ofNat n)

/-- Whether a symbol is a character with a property. -/
def satisfies (p : Char → Bool) : Symbol → Bool
  | char c => p c
  | half _ => false

def char? : Symbol → Option Char
  | char c => some c
  | half _ => none

def isHalf : Symbol → Bool
  | char _ => false
  | half _ => true

/-- The character itself, or the replacement character for a half. -/
def toChar : Symbol → Char
  | char c => c
  | half _ => '\uFFFD'

@[simp] theorem satisfies_char (p : Char → Bool) (c : Char) : (char c).satisfies p = p c := rfl

@[simp] theorem toChar_char (c : Char) : (char c).toChar = c := rfl

end Symbol

namespace Text

def ofChars (cs : List Char) : Text :=
  cs.map .char

def ofString (s : String) : Text :=
  ofChars s.toList

instance : Coe String Text := ⟨ofString⟩

/-- The string that a text without halves is. -/
def string? (t : Text) : Option String :=
  (t.mapM Symbol.char?).map String.ofList

/-- A text as a string, with the replacement character for each half. -/
def shown (t : Text) : String :=
  String.ofList (t.map Symbol.toChar)

/-- The characters of a text, with the replacement character for each half. -/
def chars (t : Text) : List Char :=
  t.map Symbol.toChar

/-- Whether a text comes no later than another, by the codes of their symbols. -/
def le : Text → Text → Bool
  | [], _ => true
  | _ :: _, [] => false
  | a :: as, b :: bs => if a = b then le as bs else decide (a.code < b.code)

@[simp] theorem chars_ofChars (cs : List Char) : chars (ofChars cs) = cs := by
  simp [chars, ofChars, Function.comp_def]

theorem mapM_char?_ofChars (cs : List Char) : (ofChars cs).mapM Symbol.char? = some cs := by
  induction cs with
  | nil => rfl
  | cons c cs ih => simp_all [ofChars, Symbol.char?, List.mapM_cons]

@[simp] theorem string?_ofString (s : String) : string? (ofString s) = some s := by
  simp [string?, ofString, mapM_char?_ofChars]

end Text

/-! ### White space -/

/-- The white space of Unicode together with the four information separators. -/
def isBlank (c : Char) : Bool :=
  let n := c.toNat
  (0x09 ≤ n && n ≤ 0x0D) || (0x1C ≤ n && n ≤ 0x20) || n == 0x85 || n == 0xA0 || n == 0x1680 ||
    (0x2000 ≤ n && n ≤ 0x200A) || n == 0x2028 || n == 0x2029 || n == 0x202F || n == 0x205F ||
    n == 0x3000

/-- A list without what `p` picks out at its front and at its end. -/
def trimWhere {α : Type} (p : α → Bool) (xs : List α) : List α :=
  ((xs.dropWhile p).reverse.dropWhile p).reverse

/-- A text without the white space at its ends. -/
def trim (t : Text) : Text :=
  trimWhere (Symbol.satisfies isBlank) t

end Reshape

import Mathlib.Data.List.TakeWhile
import Reshape.Text.Symbol
import Reshape.Text.Utf8

/-!
# Texts and characters

A text all of whose symbols are characters is the text of its characters, and is stored as bytes
that hold the same text.
-/

namespace Reshape

namespace Text

theorem ofChars_chars {t : Text} {p : Char → Bool} (h : t.all (Symbol.satisfies p) = true) :
    Text.ofChars (Text.chars t) = t := by
  induction t with
  | nil => rfl
  | cons s t ih =>
    simp only [List.all_cons, Bool.and_eq_true] at h
    cases s with
    | char c => simpa [Text.ofChars, Text.chars] using ih h.2
    | half offset => simp [Symbol.satisfies] at h

theorem all_satisfies_ofChars (p : Char → Bool) (cs : List Char) :
    (Text.ofChars cs).all (Symbol.satisfies p) = cs.all p := by
  simp [Text.ofChars, Function.comp_def]

theorem all_chars {t : Text} {p : Char → Bool} (h : t.all (Symbol.satisfies p) = true) :
    (Text.chars t).all p = true := by
  rw [← all_satisfies_ofChars, ofChars_chars h, h]

/-- For properties that the replacement character lacks, as which a half is shown. -/
theorem all_satisfies_of_chars {t : Text} {p : Char → Bool} (hp : p '\uFFFD' = false)
    (h : (Text.chars t).all p = true) : t.all (Symbol.satisfies p) = true := by
  rw [Text.chars, List.all_map] at h
  refine List.all_eq_true.mpr fun s hs => ?_
  have hshown := List.all_eq_true.mp h s hs
  cases s with
  | char c => exact hshown
  | half offset =>
    rw [Function.comp, Symbol.toChar, hp] at hshown
    cases hshown

end Text

/-! ### Bytes -/

theorem fromUTF8?_toUTF8 (s : String) : String.fromUTF8? s.toUTF8 = some s := by
  simp only [String.fromUTF8?, String.toUTF8_eq_toByteArray, dif_pos s.isValidUTF8]
  rfl

theorem unifyLineEnds_eq_self {cs : List Char} (h : cs.all (· != '\r') = true) :
    unifyLineEnds cs = cs := by
  induction cs with
  | nil => rfl
  | cons c cs ih =>
    rw [List.all_cons, Bool.and_eq_true, bne_iff_ne] at h
    rw [unifyLineEnds, ih h.2]
    · exact fun _ hc => absurd hc h.1
    · exact h.1

/-- What is stored of a text without halves and carriage returns is the text itself. -/
theorem ofString_unifyLineEnds_shown {t : Text}
    (h : t.all (Symbol.satisfies (· != '\r')) = true) :
    Text.ofString (String.ofList (unifyLineEnds (Text.shown t).toList)) = t := by
  have hchars : (Text.shown t).toList = Text.chars t := String.toList_ofList
  rw [hchars, unifyLineEnds_eq_self (Text.all_chars h), Text.ofString, String.toList_ofList,
    Text.ofChars_chars h]

theorem unencodable?_eq_none {refused : Symbol → Bool} {t : Text}
    (h : ∀ s ∈ t, refused s = false) : Utf8.unencodable? refused t = none := by
  have htake : t.takeWhile (!refused ·) = t :=
    List.takeWhile_eq_self_iff.mpr fun s hs => by rw [h s hs]; rfl
  simp only [Utf8.unencodable?, htake, List.drop_length]

/-- Where no fault is found, none of the symbols is refused. -/
theorem refused_eq_false_of_mem {refused : Symbol → Bool} {t : Text}
    (hrefused : ∀ s, refused s = true → s.isHalf = true)
    (h : Utf8.unencodable? refused t = none) : ∀ s ∈ t, refused s = false := by
  have hdrop : t.drop (t.takeWhile (!refused ·)).length = t.dropWhile (!refused ·) := by
    have hleft : (t.takeWhile (!refused ·) ++ t.dropWhile (!refused ·)).drop
        (t.takeWhile (!refused ·)).length = t.dropWhile (!refused ·) := List.drop_left
    rwa [List.takeWhile_append_dropWhile] at hleft
  simp only [Utf8.unencodable?, hdrop] at h
  cases hrest : t.dropWhile (!refused ·) with
  | nil => simpa using List.dropWhile_eq_nil_iff.mp hrest
  | cons s rest =>
    have hhead := List.head?_dropWhile_not (!refused ·) t
    rw [hrest] at hhead h
    cases s with
    | half offset => cases h
    | char c => cases hrefused (.char c) (by simpa using hhead)

theorem string?_eq_some_shown {t : Text} (h : ∀ s ∈ t, s.isHalf = false) :
    Text.string? t = some (Text.shown t) := by
  have hchars : t.mapM Symbol.char? = some (t.map Symbol.toChar) := by
    induction t with
    | nil => rfl
    | cons s t ih =>
      rw [List.forall_mem_cons] at h
      cases s with
      | half offset => cases h.1
      | char c => simp [List.mapM_cons, Symbol.char?, ih h.2]
  rw [Text.string?, hchars]
  rfl

end Reshape

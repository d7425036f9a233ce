import Reshape.Proofs.Json.Containers

/-!
# Written documents read back

`Value.Storable` says of a value that a document keeps it: no object has a name twice, and its
integers and strings can be read and written. Decoding undoes `print` in every layout on such
values (`decode_print`), by induction on what is in them: an element or a member is read where it
stands, followed by a separator, a margin or a bracket.
-/

namespace Reshape

/-- What a document keeps: names that are distinct in each object, integers that are not too long
to be read, and strings without halves of surrogate pairs. -/
inductive Value.Storable : Value → Prop where
  | null : Storable null
  | bool (b : Bool) : Storable (bool b)
  | int {n : Int} (length_le : (Nat.toDigits 10 n.natAbs).length ≤ Numeral.maxDigits) :
      Storable (int n)
  | double (x : Double) : Storable (double x)
  | str {s : Text} (no_half : ∀ c ∈ s, c.isHalf = false) : Storable (str s)
  | list {xs : List Value} (elements : ∀ x ∈ xs, Storable x) : Storable (list xs)
  | obj {ms : List (Text × Value)} (nodup : (Keyed.keys ms).Nodup)
      (no_half : ∀ m ∈ ms, ∀ c ∈ m.1, c.isHalf = false) (members : ∀ m ∈ ms, Storable m.2) :
      Storable (obj ms)

namespace Value

theorem depth_le_depthOfElements {x : Value} {xs : List Value} (h : x ∈ xs) :
    x.depth ≤ depthOfElements xs := by
  induction xs with
  | nil => cases h
  | cons y ys ih =>
    rw [depthOfElements]
    rcases List.mem_cons.mp h with rfl | h
    · exact Nat.le_max_left _ _
    · exact (ih h).trans (Nat.le_max_right _ _)

theorem depth_le_depthOfMembers {m : Text × Value} {ms : List (Text × Value)} (h : m ∈ ms) :
    m.2.depth ≤ depthOfMembers ms := by
  induction ms with
  | nil => cases h
  | cons n ns ih =>
    rw [depthOfMembers]
    rcases List.mem_cons.mp h with rfl | h
    · exact Nat.le_max_left _ _
    · exact (ih h).trans (Nat.le_max_right _ _)

end Value

namespace Json

open NumberToken (EndsBefore)

/-! ### Scalars -/

section

variable {fuel depth nested : Nat} {layout : Layout}

theorem readsBack_null : ReadsBack fuel depth layout nested .null := by
  intro rest _
  cases depth <;> rfl

theorem readsBack_bool (b : Bool) : ReadsBack fuel depth layout nested (.bool b) := by
  intro rest _
  cases b <;> cases depth <;> rfl

theorem readsBack_nan : ReadsBack fuel depth layout nested (.double .nan) := by
  intro rest _
  cases depth <;> rfl

theorem readsBack_infinity (negative : Bool) :
    ReadsBack fuel depth layout nested (.double (.infinity negative)) := by
  intro rest _
  cases negative <;> cases depth <;> rfl

theorem readsBack_str (s : Text) : ReadsBack fuel depth layout nested (.str s) := by
  intro rest _
  have hprint : printAt layout nested (.str s) ++ rest =
      .char '"' :: (s.flatMap escapeSymbol ++ .char '"' :: rest) := by
    simp [printAt, printString]
  rw [hprint, readValue_eq_readScalar (by simp) (by simp)]
  simp only [readScalar, readQuoted_printString, bind, Except.bind]
  rfl

/-! ### Numbers -/

theorem exists_digit_of_spells {token : NumberToken} {cs : List Char} (h : token.Spells cs) :
    ∃ negative c more, cs = DoubleStyle.signed negative (c :: more) ∧ c.isDigit = true := by
  obtain ⟨negative, hw, -, -⟩ := h
  next whole fraction power exponent =>
  have hall := Numeral.all_isDigit_of_isCanonical hw
  cases whole with
  | nil => cases hw
  | cons c cs =>
    rw [List.all_cons, Bool.and_eq_true] at hall
    exact ⟨negative, c, _, rfl, hall.1⟩

theorem exists_eq_cons_of_mem_words {w : String × Value} (hw : w ∈ words) :
    ∃ a b tail, (w.1 : Text) = .char a :: .char b :: tail ∧ a.isDigit = false ∧
      (a = '-' → b.isDigit = false) := by
  simp only [words, List.mem_cons, List.not_mem_nil, or_false] at hw
  rcases hw with rfl | rfl | rfl | rfl | rfl | rfl <;> exact ⟨_, _, _, rfl, rfl, fun _ => rfl⟩

/-- A word may have the sign of a number, but then no digit follows. -/
theorem word?_signed {negative : Bool} {c : Char} {more : List Char} (hc : c.isDigit = true)
    (rest : Text) :
    word? (Text.ofChars (DoubleStyle.signed negative (c :: more)) ++ rest) = none := by
  refine word?_eq_none_iff.mpr fun w hw hp => ?_
  obtain ⟨a, b, tail, hword, ha, hb⟩ := exists_eq_cons_of_mem_words hw
  rw [hword] at hp
  cases negative
  · obtain ⟨hac, -⟩ := List.cons_prefix_cons.mp hp
    cases hac
    rw [hc] at ha
    cases ha
  · obtain ⟨hminus, hp⟩ := List.cons_prefix_cons.mp hp
    obtain ⟨hbc, -⟩ := List.cons_prefix_cons.mp hp
    cases hminus
    cases hbc
    rw [hc] at hb
    cases hb rfl

theorem readValue_of_spells {token : NumberToken} {cs : List Char} {v : Value} {rest : Text}
    (h : token.Spells cs) (hv : token.value = .ok v) (hr : EndsBefore rest) :
    readValue fuel depth (Text.ofChars cs ++ rest) = .ok (v, rest) := by
  have hread := readNumber_of_spells h hv hr
  obtain ⟨negative, c, more, rfl, hc⟩ := exists_digit_of_spells h
  have hhead (d : Char) (hd : d ≠ '-') (hdigit : d.isDigit = false) :
      (Text.ofChars (DoubleStyle.signed negative (c :: more)) ++ rest).head? ≠ some (.char d) := by
    intro he
    cases negative <;> cases he
    · rw [hc] at hdigit
      cases hdigit
    · exact hd rfl
  rw [readValue_eq_readScalar (hhead _ (by decide) rfl) (hhead _ (by decide) rfl),
    readScalar_eq_readNumber (hhead _ (by decide) rfl) (word?_signed hc rest), hread]

theorem readsBack_int {n : Int} (h : (Nat.toDigits 10 n.natAbs).length ≤ Numeral.maxDigits) :
    ReadsBack fuel depth layout nested (.int n) := by
  obtain ⟨token, hspells, hvalue⟩ := exists_spells_printInt h
  exact fun rest hr => readValue_of_spells hspells hvalue hr

theorem readsBack_double (x : Double) : ReadsBack fuel depth layout nested (.double x) := by
  cases x with
  | nan => exact readsBack_nan
  | infinity negative => exact readsBack_infinity negative
  | finite negative m q fits =>
    obtain ⟨token, hspells, hvalue⟩ := exists_spells_write negative fits
    exact fun rest hr => readValue_of_spells hspells hvalue hr

end

/-! ### Values -/

theorem length_separator_pos (layout : Layout) (depth : Nat) :
    0 < (layout.separator depth).length := by
  obtain ⟨space, hseparator, -⟩ := exists_separator_eq_cons layout depth
  simp [hseparator]

theorem length_printElements (layout : Layout) (nested : Nat) (xs : List Value) :
    xs.length ≤ (printElements layout nested xs).length ∧
      ∀ x ∈ xs, (printAt layout nested x).length ≤ (printElements layout nested xs).length := by
  induction xs with
  | nil => exact ⟨Nat.le_refl _, nofun⟩
  | cons y ys ih =>
    have hseparator := length_separator_pos layout nested
    simp only [printElements, List.length_append, List.length_cons, List.mem_cons]
    refine ⟨by omega, ?_⟩
    rintro x (rfl | hx)
    · omega
    · have := ih.2 x hx
      omega

theorem length_printMembers (layout : Layout) (nested : Nat) (ms : List (Text × Value)) :
    ms.length ≤ (printMembers layout nested ms).length ∧
      ∀ m ∈ ms, (printAt layout nested m.2).length ≤ (printMembers layout nested ms).length := by
  induction ms with
  | nil => exact ⟨Nat.le_refl _, nofun⟩
  | cons n ns ih =>
    have hseparator := length_separator_pos layout nested
    simp only [printMembers, List.length_append, List.length_cons, List.mem_cons]
    refine ⟨by omega, ?_⟩
    rintro m (rfl | hm)
    · omega
    · have := ih.2 m hm
      omega

theorem length_printAt_list (layout : Layout) (nested : Nat) (xs : List Value) :
    xs.length ≤ (printAt layout nested (.list xs)).length ∧ ∀ x ∈ xs,
      (printAt layout (nested + 1) x).length ≤ (printAt layout nested (.list xs)).length := by
  cases xs with
  | nil => exact ⟨Nat.zero_le _, nofun⟩
  | cons y ys =>
    obtain ⟨hcount, helements⟩ := length_printElements layout (nested + 1) ys
    simp only [printAt, List.length_append, List.length_cons, List.mem_cons]
    refine ⟨by omega, ?_⟩
    rintro x (rfl | hx)
    · omega
    · have := helements x hx
      omega

theorem length_printAt_obj (layout : Layout) (nested : Nat) (ms : List (Text × Value)) :
    ms.length ≤ (printAt layout nested (.obj ms)).length ∧ ∀ m ∈ ms,
      (printAt layout (nested + 1) m.2).length ≤ (printAt layout nested (.obj ms)).length := by
  cases ms with
  | nil => exact ⟨Nat.zero_le _, nofun⟩
  | cons n ns =>
    obtain ⟨hcount, hmembers⟩ := length_printMembers layout (nested + 1) ns
    simp only [printAt, List.length_append, List.length_cons, List.mem_cons]
    refine ⟨by omega, ?_⟩
    rintro m (rfl | hm)
    · omega
    · have := hmembers m hm
      omega

theorem readsBack {v : Value} (hv : v.Storable) (layout : Layout) {fuel depth nested : Nat}
    (hdepth : v.depth ≤ depth) (hfuel : (printAt layout nested v).length ≤ fuel) :
    ReadsBack fuel depth layout nested v := by
  induction hv generalizing depth nested with
  | null => exact readsBack_null
  | bool b => exact readsBack_bool b
  | int h => exact readsBack_int h
  | double x => exact readsBack_double x
  | str => exact readsBack_str _
  | @list xs _ ih =>
    rw [Value.depth] at hdepth
    obtain ⟨depth, rfl⟩ := Nat.exists_eq_add_one.mpr (Nat.zero_lt_of_lt hdepth)
    obtain ⟨hcount, hlength⟩ := length_printAt_list layout nested xs
    intro rest _
    obtain ⟨t, hprint, hread⟩ := readList_print (fun x hx => ih x hx
      ((Value.depth_le_depthOfElements hx).trans (Nat.le_of_succ_le_succ hdepth))
      ((hlength x hx).trans hfuel)) (hcount.trans hfuel) rest
    rw [hprint, readValue, hread]
  | @obj ms hnodup _ _ ih =>
    rw [Value.depth] at hdepth
    obtain ⟨depth, rfl⟩ := Nat.exists_eq_add_one.mpr (Nat.zero_lt_of_lt hdepth)
    obtain ⟨hcount, hlength⟩ := length_printAt_obj layout nested ms
    intro rest _
    obtain ⟨t, hprint, hread⟩ := readObject_print hnodup (fun m hm => ih m hm
      ((Value.depth_le_depthOfMembers hm).trans (Nat.le_of_succ_le_succ hdepth))
      ((hlength m hm).trans hfuel)) (hcount.trans hfuel) rest
    rw [hprint, readValue, hread]

/-! ### Documents -/

/-- Decoding undoes writing, in every layout. -/
theorem decode_print {v : Value} (hv : v.Storable) (hdepth : v.depth ≤ nestingLimit)
    (layout : Layout) : decode (print layout v ++ [.char '\n']) = .ok v := by
  have hlength : (printAt layout 0 v).length ≤
      List.length (print layout v ++ [Symbol.char '\n']) := by
    rw [List.length_append]
    exact Nat.le_add_right _ _
  have hreads := readsBack hv layout hdepth hlength
  obtain ⟨c, more, hcons, hstart⟩ := hreads.exists_eq_cons
  have hread := hreads [.char '\n'] (endsBefore_cons (c := '\n') (by decide) [])
  have hskip := hreads.skipSpace_eq [.char '\n']
  rw [← print] at hcons hread hskip
  unfold decode readText
  split
  · next heq =>
    rw [hcons] at heq
    cases heq
    cases hstart
  · rw [hskip, hread]
    rfl

end Json

end Reshape

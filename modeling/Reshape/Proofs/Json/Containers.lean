import Reshape.Proofs.Json.Numbers
import Reshape.Proofs.Json.Start
import Reshape.Proofs.Json.Strings
import Reshape.Proofs.Keyed

/-!
# Written containers read back

The elements of a list and the members of an object are read back from how they are laid out, if
each value in them is. What is read by `item` is a value followed by a text in which no number
goes on (`NumberToken.EndsBefore`), as every separator, margin and bracket is.
-/

namespace Reshape.Json

open NumberToken (EndsBefore)

/-! ### Space -/

theorem skipSpace_cons {s : Symbol} (h : isSpace s = false) (t : Text) :
    skipSpace (s :: t) = s :: t := by
  rw [skipSpace, List.dropWhile_cons, h]
  rfl

theorem skipSpace_margin (layout : Layout) (depth : Nat) (t : Text) :
    skipSpace (layout.margin depth ++ t) = skipSpace t := by
  have hall : ∀ s ∈ layout.margin depth, isSpace s = true := by
    cases layout with
    | compact => simp [Layout.margin]
    | indented width =>
      intro s hs
      rcases List.mem_cons.mp hs with rfl | hs
      · rfl
      · rw [List.eq_of_mem_replicate hs]
        rfl
  rw [skipSpace, List.dropWhile_append_of_pos hall, skipSpace]

/-- After a comma comes nothing but space. -/
theorem exists_separator_eq_cons (layout : Layout) (depth : Nat) :
    ∃ space : Text, layout.separator depth = .char ',' :: space ∧
      ∀ t, skipSpace (space ++ t) = skipSpace t := by
  cases layout with
  | compact => exact ⟨[.char ' '], rfl, fun t => rfl⟩
  | indented width => exact ⟨_, rfl, skipSpace_margin (.indented width) depth⟩

theorem isSpace_eq_false_of_isStart {c : Char} (h : isStart c = true) :
    isSpace (.char c) = false := by
  have hall : ([' ', '\t', '\n', '\r'].all (!isStart ·)) = true := by decide
  refine Bool.eq_false_iff.mpr fun hs => ?_
  have hmem : c ∈ [' ', '\t', '\n', '\r'] := by
    simpa [isSpace, Symbol.satisfies, or_assoc] using hs
  have hc : (!isStart c) = true := List.all_eq_true.mp hall c hmem
  rw [h] at hc
  cases hc

/-! ### Ends of numbers -/

theorem endsBefore_cons {c : Char} (h : c ∈ [',', ']', '\x7d', '\n']) (t : Text) :
    EndsBefore (.char c :: t) := by
  have hall : ([',', ']', '\x7d', '\n'].all fun c =>
      decide (c.isDigit = false ∧ c ≠ '.' ∧ c ≠ 'e' ∧ c ≠ 'E')) = true := by
    decide
  intro c' hc'
  cases hc'
  exact of_decide_eq_true (List.all_eq_true.mp hall c h)

theorem endsBefore_margin_append (layout : Layout) (depth : Nat) {c : Char}
    (h : c ∈ [',', ']', '\x7d', '\n']) (t : Text) :
    EndsBefore (layout.margin depth ++ .char c :: t) := by
  cases layout with
  | compact => exact endsBefore_cons h t
  | indented width => exact endsBefore_cons (by decide) _

/-! ### Values -/

/-- What is written for a value is read as the value, whatever follows. -/
def ReadsBack (fuel depth : Nat) (layout : Layout) (nested : Nat) (v : Value) : Prop :=
  ∀ rest, EndsBefore rest → readValue fuel depth (printAt layout nested v ++ rest) = .ok (v, rest)

section

variable {fuel depth nested : Nat} {layout : Layout}

theorem ReadsBack.exists_eq_cons {v : Value} (h : ReadsBack fuel depth layout nested v) :
    ∃ c more, printAt layout nested v = .char c :: more ∧ isStart c = true := by
  have hread := h [] fun c hc => by cases hc
  obtain ⟨c, hc, hstart⟩ := exists_start_of_readValue_ok hread
  rw [List.append_nil, List.head?_eq_some_iff] at hc
  obtain ⟨more, hmore⟩ := hc
  exact ⟨c, more, hmore, hstart⟩

theorem ReadsBack.skipSpace_eq {v : Value} (h : ReadsBack fuel depth layout nested v) (t : Text) :
    skipSpace (printAt layout nested v ++ t) = printAt layout nested v ++ t := by
  obtain ⟨c, more, hcons, hstart⟩ := h.exists_eq_cons
  rw [hcons]
  exact skipSpace_cons (isSpace_eq_false_of_isStart hstart) _

/-! ### Lists -/

theorem readElements_print {x : Value} {xs : List Value}
    (h : ∀ y ∈ x :: xs, ReadsBack fuel depth layout nested y) {count : Nat}
    (hcount : xs.length < count) (outer : Nat) (rest : Text) :
    readElements (readValue fuel depth) count (printAt layout nested x ++
        (printElements layout nested xs ++ (layout.margin outer ++ .char ']' :: rest))) =
      .ok (x :: xs, rest) := by
  induction xs generalizing x count with
  | nil =>
    obtain ⟨count, rfl⟩ := Nat.exists_eq_add_one.mpr hcount
    have hx := h x List.mem_cons_self _
      (endsBefore_margin_append layout outer (c := ']') (by decide) rest)
    have hskip : skipSpace (layout.margin outer ++ .char ']' :: rest) = .char ']' :: rest := by
      rw [skipSpace_margin, skipSpace_cons rfl]
    simp only [readElements, printElements, List.nil_append, hx, bind, Except.bind, hskip]
    rfl
  | cons y ys ih =>
    obtain ⟨count, rfl⟩ := Nat.exists_eq_add_one.mpr (Nat.zero_lt_of_lt hcount)
    obtain ⟨space, hseparator, hspace⟩ := exists_separator_eq_cons layout nested
    have htail : ∀ z ∈ y :: ys, ReadsBack fuel depth layout nested z :=
      fun z hz => h z (List.mem_cons_of_mem _ hz)
    have hx := h x List.mem_cons_self _ (endsBefore_cons (c := ',') (by decide) (space ++
      (printAt layout nested y ++ (printElements layout nested ys ++
        (layout.margin outer ++ .char ']' :: rest)))))
    simp only [readElements, printElements, hseparator, List.cons_append, List.append_assoc, hx,
      bind, Except.bind, skipSpace_cons (s := .char ',') rfl, hspace,
      (htail y List.mem_cons_self).skipSpace_eq, ih htail (Nat.lt_of_succ_lt_succ hcount)]
    rfl

theorem readList_print {xs : List Value} (h : ∀ y ∈ xs, ReadsBack fuel depth layout (nested + 1) y)
    (hfuel : xs.length ≤ fuel) (rest : Text) :
    ∃ t, printAt layout nested (.list xs) ++ rest = .char '[' :: t ∧
      readList (readValue fuel depth) fuel t = .ok (.list xs, rest) := by
  cases xs with
  | nil => exact ⟨.char ']' :: rest, rfl, rfl⟩
  | cons x xs =>
    refine ⟨layout.margin (nested + 1) ++ (printAt layout (nested + 1) x ++
      (printElements layout (nested + 1) xs ++ (layout.margin nested ++ .char ']' :: rest))),
      by simp only [printAt, List.cons_append, List.append_assoc, List.nil_append], ?_⟩
    have hread := readElements_print h hfuel nested rest
    obtain ⟨c, more, hcons, hstart⟩ := (h x List.mem_cons_self).exists_eq_cons
    unfold readList
    rw [skipSpace_margin, (h x List.mem_cons_self).skipSpace_eq]
    split
    · next heq =>
      rw [hcons] at heq
      cases heq
      cases hstart
    · rw [hread]
      rfl

/-! ### Objects -/

theorem readMember_print (k : Text) {v : Value} (h : ReadsBack fuel depth layout nested v)
    {rest : Text} (hr : EndsBefore rest) :
    readMember (readValue fuel depth)
        (printString k ++ (colon ++ (printAt layout nested v ++ rest))) = .ok ((k, v), rest) := by
  have hname := readQuoted_printString k (colon ++ (printAt layout nested v ++ rest))
  have hcolon : skipSpace (colon ++ (printAt layout nested v ++ rest)) =
      .char ':' :: .char ' ' :: (printAt layout nested v ++ rest) := rfl
  have hvalue : skipSpace (.char ' ' :: (printAt layout nested v ++ rest)) =
      printAt layout nested v ++ rest := h.skipSpace_eq rest
  simp only [readMember, printString, List.cons_append, List.append_assoc, List.nil_append, hname,
    bind, Except.bind, hcolon, hvalue, h rest hr]
  rfl

theorem skipSpace_printString (k t : Text) :
    skipSpace (printString k ++ t) = printString k ++ t :=
  skipSpace_cons rfl _

theorem readMembers_print {k : Text} {v : Value} {ms : List (Text × Value)}
    (h : ∀ m ∈ (k, v) :: ms, ReadsBack fuel depth layout nested m.2) {count : Nat}
    (hcount : ms.length < count) (outer : Nat) (rest : Text) :
    readMembers (readValue fuel depth) count (printString k ++ (colon ++ (printAt layout nested v ++
        (printMembers layout nested ms ++ (layout.margin outer ++ .char '\x7d' :: rest))))) =
      .ok ((k, v) :: ms, rest) := by
  induction ms generalizing k v count with
  | nil =>
    obtain ⟨count, rfl⟩ := Nat.exists_eq_add_one.mpr hcount
    have hm := readMember_print k (h _ List.mem_cons_self)
      (endsBefore_margin_append layout outer (c := '\x7d') (by decide) rest)
    have hskip : skipSpace (layout.margin outer ++ .char '\x7d' :: rest) =
        .char '\x7d' :: rest := by
      rw [skipSpace_margin, skipSpace_cons rfl]
    simp only [readMembers, printMembers, List.nil_append, hm, bind, Except.bind, hskip]
    rfl
  | cons m ms ih =>
    obtain ⟨l, w⟩ := m
    obtain ⟨count, rfl⟩ := Nat.exists_eq_add_one.mpr (Nat.zero_lt_of_lt hcount)
    obtain ⟨space, hseparator, hspace⟩ := exists_separator_eq_cons layout nested
    have htail : ∀ m ∈ (l, w) :: ms, ReadsBack fuel depth layout nested m.2 :=
      fun m hm => h m (List.mem_cons_of_mem _ hm)
    have hm := readMember_print k (h _ List.mem_cons_self) (endsBefore_cons (c := ',') (by decide)
      (space ++ (printString l ++ (colon ++ (printAt layout nested w ++
        (printMembers layout nested ms ++ (layout.margin outer ++ .char '\x7d' :: rest)))))))
    simp only [readMembers, printMembers, hseparator, List.cons_append, List.append_assoc, hm,
      bind, Except.bind, skipSpace_cons (s := .char ',') rfl, hspace, skipSpace_printString,
      ih htail (Nat.lt_of_succ_lt_succ hcount)]
    rfl

theorem readObject_print {ms : List (Text × Value)} (hnames : (Keyed.keys ms).Nodup)
    (h : ∀ m ∈ ms, ReadsBack fuel depth layout (nested + 1) m.2) (hfuel : ms.length ≤ fuel)
    (rest : Text) :
    ∃ t, printAt layout nested (.obj ms) ++ rest = .char '\x7b' :: t ∧
      readObject (readValue fuel depth) fuel t = .ok (.obj ms, rest) := by
  cases ms with
  | nil => exact ⟨.char '\x7d' :: rest, rfl, rfl⟩
  | cons m ms =>
    obtain ⟨k, v⟩ := m
    refine ⟨layout.margin (nested + 1) ++ (printString k ++ (colon ++
      (printAt layout (nested + 1) v ++ (printMembers layout (nested + 1) ms ++
        (layout.margin nested ++ .char '\x7d' :: rest))))),
      by simp only [printAt, List.cons_append, List.append_assoc, List.nil_append], ?_⟩
    have hread := readMembers_print h hfuel nested rest
    unfold readObject
    rw [skipSpace_margin, skipSpace_printString]
    split
    · next heq => cases heq
    · rw [hread]
      exact congrArg (fun ms => Except.ok (Value.obj ms, rest)) (Keyed.ofList_of_nodup hnames)

end

end Reshape.Json

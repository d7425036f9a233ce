import Reshape.Proofs.Path.Blocked

/-!
# Reading what was written

A piece that is a wildcard for the reader or a key for both sides is a segment and a slot of the
same key (`Segment.Mirrored`, `Segment.slot`). Along such pieces a written value is met again: the
objects that a write goes through are the first of what a reading collects (`readAll_write`,
`readFrom_write`), and nothing else is collected from an empty object (`readAll_write_nil`). Only
the elements beside them can stop the reading (`readText_writeText`).
-/

namespace Reshape

namespace Segment

/-- A segment that the writer knows too, which has no indexes. -/
def Unindexed (s : Segment) : Prop :=
  s.access = .plain ∨ s.access = .wildcard

/-- The slot that stands in a target where the segment stands in a path. -/
def slot (s : Segment) : Slot :=
  if s.isWildcard then .array s.key else .field s.key

/-- The reader sees a wildcard in the piece, or a key in which the writer sees no more. -/
def Mirrored (piece : Text) : Prop :=
  ∃ s, ofText piece = .ok s ∧ (s.access = .wildcard ∨ s.access = .plain ∧ ¬ Marked piece)

instance (piece : Text) : Decidable (Mirrored piece) :=
  match h : ofText piece with
  | .ok s => decidable_of_iff (s.access = .wildcard ∨ s.access = .plain ∧ ¬ Marked piece)
      (by simp [Mirrored, h])
  | .error _ => isFalse (by simp [Mirrored, h])

theorem isWildcard_of_wildcard {s : Segment} (h : s.access = .wildcard) : s.isWildcard = true := by
  rw [isWildcard, h]

theorem isWildcard_of_plain {s : Segment} (h : s.access = .plain) : s.isWildcard = false := by
  rw [isWildcard, h]

theorem Unindexed.plain {s : Segment} (h : s.Unindexed) (hw : s.isWildcard = false) :
    s.access = .plain := by
  rcases h with h | h
  · exact h
  · rw [isWildcard_of_wildcard h] at hw
    cases hw

@[simp] theorem key_slot (s : Segment) : s.slot.key = s.key := by
  unfold slot
  split <;> rfl

theorem key_of_ofText_plain {piece : Text} {s : Segment} (h : ofText piece = .ok s)
    (ha : s.access = .plain) : s.key = piece := by
  rcases ofText_eq_ok_iff.mp h with ⟨key, -, rfl⟩ | ⟨key, digits, -, -, -, rfl⟩ | ⟨-, rfl⟩
  · cases ha
  · cases ha
  · rfl

theorem eq_of_ofText_wildcard {piece : Text} {s : Segment} (h : ofText piece = .ok s)
    (ha : s.access = .wildcard) : piece = s.key ++ [.char '[', .char ']'] := by
  rcases ofText_eq_ok_iff.mp h with ⟨key, hb, rfl⟩ | ⟨key, digits, -, -, -, rfl⟩ | ⟨-, rfl⟩
  · exact hb.eq
  · cases ha
  · cases ha

/-- Reader and writer split a mirrored piece alike. -/
theorem Mirrored.slot_ofText {piece : Text} (h : Mirrored piece) :
    ∃ s, ofText piece = .ok s ∧ Slot.ofText piece = s.slot ∧ s.Unindexed := by
  obtain ⟨s, hs, hw | ⟨hp, hm⟩⟩ := h
  · refine ⟨s, hs, ?_, .inr hw⟩
    rw [eq_of_ofText_wildcard hs hw, Slot.ofText_array, slot, if_pos (isWildcard_of_wildcard hw)]
  · refine ⟨s, hs, ?_, .inl hp⟩
    have hkey : ¬ s.isWildcard = true := by
      rw [isWildcard_of_plain hp]
      exact Bool.false_ne_true
    rw [Slot.ofText_field hm, slot, if_neg hkey, key_of_ofText_plain hs hp]

end Segment

namespace Path

/-- The target that stands in a mapping where the path stands. -/
def target (p : Path) : Target :=
  p.map Segment.slot

def endsInWildcard (p : Path) : Bool :=
  p.getLast?.any Segment.isWildcard

/-- What is found where a value was written, if there was nothing before. -/
def landed (p : Path) (v : Value) : List Value :=
  if p.endsInWildcard then appended [] v else [v]

theorem exists_path_of_mirrored {text : Text}
    (h : ∀ piece ∈ pieces text, Segment.Mirrored piece) :
    ∃ p, ofText text = .ok p ∧ Target.ofText text = p.target ∧ ∀ s ∈ p, s.Unindexed := by
  unfold ofText Target.ofText
  generalize pieces text = texts at h
  induction texts with
  | nil => exact ⟨[], rfl, rfl, nofun⟩
  | cons piece rest ih =>
    rw [List.forall_mem_cons] at h
    obtain ⟨s, hs, hslot, hu⟩ := h.1.slot_ofText
    obtain ⟨p, hp, htarget, hall⟩ := ih h.2
    refine ⟨s :: p, ?_, ?_, List.forall_mem_cons.mpr ⟨hu, hall⟩⟩
    · rw [List.mapM_cons, hs, hp]
      rfl
    · rw [List.map_cons, hslot, htarget]
      rfl

end Path

/-! ### One step -/

namespace Segment

variable {s : Segment} {v : Value}

theorem spread_plain (ms : Members) (key : Text) :
    ({ key } : Segment).spread (.obj ms) = .ok [(Keyed.get? ms key).getD .null] := rfl

theorem spread_wildcard (ms : Members) (key : Text) :
    ({ key, access := .wildcard } : Segment).spread (.obj ms) =
      .ok (fanOut (Keyed.get? ms key)) := rfl

/-- A value that was written last is found under its segment. -/
theorem spread_write (hs : s.Unindexed) (ms : Members) :
    s.spread (.obj (write ms [s.slot] v)) =
      .ok (if s.isWildcard then appended (elementsUnder ms s.key) v else [v]) := by
  obtain ⟨key, access⟩ := s
  rcases hs with rfl | rfl
  · show ({ key } : Segment).spread (.obj (write ms [.field key] v)) = .ok [v]
    rw [spread_plain, Target.get?_write, Slot.key, if_pos rfl]
    rfl
  · show ({ key, access := .wildcard } : Segment).spread (.obj (write ms [.array key] v)) =
      .ok (appended (elementsUnder ms key) v)
    rw [spread_wildcard, Target.get?_write, Slot.key, if_pos rfl]
    rfl

/-- An object that a write goes through is the first that its segment finds, and the only one if
there was nothing before. -/
theorem spread_write_cons (hs : s.Unindexed) (ms : Members) (t : Slot) (rest : Target) :
    ∃ ms' others, s.spread (.obj (write ms (s.slot :: t :: rest) v)) =
        .ok (.obj (write ms' (t :: rest) v) :: others) ∧
      (ms = [] → ms' = [] ∧ others = []) := by
  obtain ⟨key, access⟩ := s
  rcases hs with rfl | rfl
  · refine ⟨membersUnder ms key, [], ?_, ?_⟩
    · show ({ key } : Segment).spread (.obj (write ms (.field key :: t :: rest) v)) = _
      rw [spread_plain, Target.get?_write, Slot.key, if_pos rfl]
      rfl
    · rintro rfl
      exact ⟨rfl, rfl⟩
  · refine ⟨firstMembers (elementsUnder ms key), (elementsUnder ms key).tail, ?_, ?_⟩
    · show ({ key, access := .wildcard } : Segment).spread
        (.obj (write ms (.array key :: t :: rest) v)) = _
      rw [spread_wildcard, Target.get?_write, Slot.key, if_pos rfl]
      rfl
    · rintro rfl
      exact ⟨rfl, rfl⟩

end Segment

namespace Path

variable {v : Value} {p : Path} {s t : Segment} {ms : Members}

theorem endsInWildcard_cons_cons : endsInWildcard (s :: t :: p) = endsInWildcard (t :: p) := by
  rw [endsInWildcard, List.getLast?_cons_cons, endsInWildcard]

theorem landed_singleton : landed [s] v = if s.isWildcard then appended [] v else [v] := rfl

theorem landed_cons_cons : landed (s :: t :: p) v = landed (t :: p) v := by
  rw [landed, endsInWildcard_cons_cons, landed]

/-! ### Collections -/

/-- What the first value of a collection gives comes first. -/
theorem readAll_cons {x : Value} {others first found : List Value} (hx : s.spread x = .ok first)
    (h : readAll (x :: others) (s :: p) = .ok found) :
    ∃ more, readAll (first ++ more) p = .ok found := by
  rw [readAll, List.mapM_cons, hx, Traverse.bind_eq_ok_iff] at h
  obtain ⟨collected, hc, hrest⟩ := h
  obtain ⟨_, hfirst, hc⟩ := Traverse.bind_eq_ok_iff.mp hc
  obtain ⟨parts, -, hparts⟩ := Traverse.bind_eq_ok_iff.mp hc
  cases hfirst
  cases hparts
  exact ⟨parts.flatten, hrest⟩

/-- What was written through the first value of a collection is the first that is collected. -/
theorem readAll_write (hne : p ≠ []) (hu : ∀ s ∈ p, s.Unindexed)
    (hv : p.endsInWildcard = true → ∃ xs, v = .list xs) {others found : List Value}
    (h : readAll (.obj (write ms p.target v) :: others) p = .ok found) :
    ∃ rest, found = landed p v ++ rest := by
  induction p generalizing ms others with
  | nil => exact absurd rfl hne
  | cons s p ih =>
    rw [List.forall_mem_cons] at hu
    cases p with
    | nil =>
      obtain ⟨more, hmore⟩ := readAll_cons (Segment.spread_write hu.1 ms) h
      cases hmore
      refine ⟨more, ?_⟩
      rw [landed_singleton]
      by_cases hw : s.isWildcard = true
      · obtain ⟨xs, rfl⟩ := hv hw
        rw [if_pos hw, if_pos hw]
        rfl
      · rw [if_neg hw, if_neg hw]
    | cons t p =>
      obtain ⟨ms', beside, hspread, -⟩ :=
        Segment.spread_write_cons hu.1 ms t.slot (p.map Segment.slot)
      obtain ⟨more, hmore⟩ := readAll_cons hspread h
      rw [endsInWildcard_cons_cons] at hv
      rw [landed_cons_cons]
      exact ih (List.cons_ne_nil t p) hu.2 hv hmore

/-- From an empty object nothing else is collected. -/
theorem readAll_write_nil (hne : p ≠ []) (hu : ∀ s ∈ p, s.Unindexed) :
    readAll [.obj (write [] p.target v)] p = .ok (landed p v) := by
  have hstep : ∀ {x : Value} {first : List Value} {s : Segment} {p : Path},
      s.spread x = .ok first → readAll [x] (s :: p) = readAll first p := by
    intro x first s p hx
    rw [readAll, List.mapM_cons, List.mapM_nil, hx]
    show readAll (List.flatten [first]) p = _
    rw [List.flatten_singleton]
  induction p with
  | nil => exact absurd rfl hne
  | cons s p ih =>
    rw [List.forall_mem_cons] at hu
    cases p with
    | nil =>
      rw [landed_singleton]
      exact hstep (Segment.spread_write hu.1 [])
    | cons t p =>
      obtain ⟨ms', beside, hspread, halone⟩ :=
        Segment.spread_write_cons (v := v) hu.1 [] t.slot (p.map Segment.slot)
      obtain ⟨rfl, rfl⟩ := halone rfl
      rw [landed_cons_cons]
      exact (hstep hspread).trans (ih (List.cons_ne_nil t p) hu.2)

/-! ### One value -/

theorem readFrom_write_last (hs : s.Unindexed) :
    readFrom (some (.obj (write ms (target [s]) v))) [s] =
      .ok (some (if s.isWildcard then .list (appended (elementsUnder ms s.key) v) else v)) := by
  obtain ⟨key, access⟩ := s
  rcases hs with rfl | rfl
  · show readFrom (some (.obj (write ms [.field key] v))) [{ key }] = .ok (some v)
    rw [readFrom_obj, Target.get?_write, Slot.key, if_pos rfl]
    rfl
  · show readFrom (some (.obj (write ms [.array key] v))) [{ key, access := .wildcard }] =
      .ok (some (.list (appended (elementsUnder ms key) v)))
    rw [readFrom_obj, Target.get?_write, Slot.key, if_pos rfl]
    rfl

/-- Before the first wildcard a reading goes from object to object, as the write did. -/
theorem readFrom_write_plain (hs : s.access = .plain) :
    readFrom (some (.obj (write ms (target (s :: t :: p)) v))) (s :: t :: p) =
      readFrom (some (.obj (write (membersUnder ms s.key) (target (t :: p)) v))) (t :: p) := by
  obtain ⟨key, access⟩ := s
  subst hs
  show readFrom (some (.obj (write ms (.field key :: target (t :: p)) v))) ({ key } :: t :: p) = _
  rw [readFrom_obj, Target.get?_write, Slot.key, if_pos rfl]
  rfl

/-- At the first wildcard a reading collects the element that the write went through and all that
are beside it. -/
theorem readFrom_write_wildcard (hs : s.access = .wildcard) :
    readFrom (some (.obj (write ms (target (s :: t :: p)) v))) (s :: t :: p) = do
      return some (.list (← readAll (.obj (write (firstMembers (elementsUnder ms s.key))
        (target (t :: p)) v) :: (elementsUnder ms s.key).tail) (t :: p))) := by
  obtain ⟨key, access⟩ := s
  subst hs
  show readFrom (some (.obj (write ms (.array key :: target (t :: p)) v)))
    ({ key, access := .wildcard } :: t :: p) = _
  rw [readFrom_obj, Target.get?_write, Slot.key, if_pos rfl]
  rfl

/-- Without a wildcard, the value itself is found. -/
theorem readFrom_write_fields (hne : p ≠ []) (hu : ∀ s ∈ p, s.Unindexed)
    (hw : p.hasWildcard = false) :
    readFrom (some (.obj (write ms p.target v))) p = .ok (some v) := by
  induction p generalizing ms with
  | nil => exact absurd rfl hne
  | cons s p ih =>
    rw [List.forall_mem_cons] at hu
    rw [hasWildcard_cons, Bool.or_eq_false_iff] at hw
    cases p with
    | nil => rw [readFrom_write_last hu.1, if_neg (by simp [hw.1])]
    | cons t p =>
      rw [readFrom_write_plain (hu.1.plain hw.1)]
      exact ih (List.cons_ne_nil t p) hu.2 hw.2

/-- With one wildcard, at the end, the list that the value was written to is found. -/
theorem readFrom_write_lastWildcard (hu : ∀ s ∈ p, s.Unindexed) (hl : p.endsInWildcard = true)
    (hw : hasWildcard p.dropLast = false) :
    readFrom (some (.obj (write ms p.target v))) p = .ok (some (.list
      (appended (Slot.oldElements ((Value.obj ms).along (p.map Segment.key))) v))) := by
  induction p generalizing ms with
  | nil => cases hl
  | cons s p ih =>
    rw [List.forall_mem_cons] at hu
    cases p with
    | nil =>
      have hs : s.isWildcard = true := hl
      rw [readFrom_write_last hu.1, if_pos hs, List.map_singleton, Value.along]
      cases hg : Keyed.get? ms s.key <;> simp [elementsUnder, Slot.oldElements, hg, Value.along]
    | cons t p =>
      rw [List.dropLast_cons_cons, hasWildcard_cons, Bool.or_eq_false_iff] at hw
      rw [endsInWildcard_cons_cons] at hl
      rw [readFrom_write_plain (hu.1.plain hw.1), ih hu.2 hl hw.2]
      show _ = Except.ok (some (Value.list (appended (Slot.oldElements
        ((Value.obj ms).along (s.key :: t.key :: p.map Segment.key))) v)))
      rw [Value.along, ← Target.along_oldMembers]
      rfl

/-- With a wildcard, what was written is the first that is found. -/
theorem readFrom_write (hu : ∀ s ∈ p, s.Unindexed) (hw : p.hasWildcard = true)
    (hv : p.endsInWildcard = true → ∃ xs, v = .list xs) {found : Option Value}
    (h : readFrom (some (.obj (write ms p.target v))) p = .ok found) :
    ∃ rest, found = some (.list (landed p v ++ rest)) := by
  induction p generalizing ms with
  | nil => cases hw
  | cons s p ih =>
    rw [List.forall_mem_cons] at hu
    cases p with
    | nil =>
      have hs : s.isWildcard = true := by simpa [hasWildcard_cons, hasWildcard] using hw
      obtain ⟨xs, rfl⟩ := hv hs
      rw [readFrom_write_last hu.1, if_pos hs] at h
      cases h
      rw [landed_singleton, if_pos hs]
      exact ⟨[], by rw [List.append_nil]; rfl⟩
    | cons t p =>
      rw [endsInWildcard_cons_cons] at hv
      rw [landed_cons_cons]
      rcases hu.1 with hs | hs
      · rw [hasWildcard_cons, Segment.isWildcard_of_plain hs, Bool.false_or] at hw
        rw [readFrom_write_plain hs] at h
        exact ih hu.2 hw hv h
      · rw [readFrom_write_wildcard hs] at h
        obtain ⟨all, hall, hfound⟩ := Traverse.bind_eq_ok_iff.mp h
        cases hfound
        obtain ⟨rest, rfl⟩ := readAll_write (List.cons_ne_nil t p) hu.2 hv hall
        exact ⟨rest, rfl⟩

/-- In an empty object nothing else is found. -/
theorem readFrom_write_nil (hu : ∀ s ∈ p, s.Unindexed) (hw : p.hasWildcard = true) :
    readFrom (some (.obj (write [] p.target v))) p = .ok (some (.list (landed p v))) := by
  induction p with
  | nil => cases hw
  | cons s p ih =>
    rw [List.forall_mem_cons] at hu
    cases p with
    | nil =>
      have hs : s.isWildcard = true := by simpa [hasWildcard_cons, hasWildcard] using hw
      rw [readFrom_write_last hu.1, if_pos hs, landed_singleton, if_pos hs]
      rfl
    | cons t p =>
      rw [landed_cons_cons]
      rcases hu.1 with hs | hs
      · rw [hasWildcard_cons, Segment.isWildcard_of_plain hs, Bool.false_or] at hw
        rw [readFrom_write_plain hs]
        exact ih hu.2 hw
      · rw [readFrom_write_wildcard hs]
        show (do return some (.list (← readAll [.obj (write [] (target (t :: p)) v)] (t :: p))) :
          Except TooManyDigits (Option Value)) = _
        rw [readAll_write_nil (List.cons_ne_nil t p) hu.2]
        rfl

/-! ### Texts -/

theorem readText_eq_readFrom {root : Value} {text : Text} (hne : text ≠ [])
    (h : ofText text = .ok p) : readText root text = readFrom (some root) p := by
  rw [readText, if_neg hne, h]
  rfl

/-- What reading a path comes to after a value has been written to it in an object. Beside the
value there may be elements that were there before; where one of them stops the reading, nothing
is read. -/
structure Recovers (t : Members) (v : Value) (text : Text) (p : Path) : Prop where
  fields : p.hasWildcard = false → readText (.obj (writeText t text v)) text = .ok (some v)
  below : p.hasWildcard = true → p.endsInWildcard = false →
    ((∃ rest, readText (.obj (writeText t text v)) text = .ok (some (.list (v :: rest)))) ↔
      ¬ Stops (.obj (writeText t text v)) text)
  replaced : p.endsInWildcard = true → ∀ xs, v = .list xs →
    ((∃ rest, readText (.obj (writeText t text v)) text = .ok (some (.list (xs ++ rest)))) ↔
      ¬ Stops (.obj (writeText t text v)) text)
  replacedOnly : p.endsInWildcard = true → hasWildcard p.dropLast = false → ∀ xs, v = .list xs →
    readText (.obj (writeText t text v)) text = .ok (some v)
  appendedOnly : p.endsInWildcard = true → hasWildcard p.dropLast = false →
    (∀ xs, v ≠ .list xs) → readText (.obj (writeText t text v)) text =
      .ok (some (.list (Slot.oldElements ((Value.obj t).along (p.map Segment.key)) ++ [v])))
  /-- In an empty object there is nothing beside the value. -/
  belowEmpty : t = [] → p.hasWildcard = true → p.endsInWildcard = false →
    readText (.obj (writeText t text v)) text = .ok (some (.list [v]))
  replacedEmpty : t = [] → p.endsInWildcard = true → ∀ xs, v = .list xs →
    readText (.obj (writeText t text v)) text = .ok (some v)
  appendedEmpty : t = [] → p.endsInWildcard = true → (∀ xs, v ≠ .list xs) →
    readText (.obj (writeText t text v)) text = .ok (some (.list [v]))

theorem hasWildcard_of_endsInWildcard (h : p.endsInWildcard = true) : p.hasWildcard = true := by
  obtain ⟨s, hs, hw⟩ := Option.any_eq_true _ _ |>.mp h
  exact List.any_eq_true.mpr ⟨s, List.mem_of_getLast? hs, hw⟩

/-- A reading that is not stopped finds what was written before all else. -/
theorem exists_readText_iff {t : Members} {text : Text} (hne : text ≠ [])
    (hp : ofText text = .ok p) (ht : Target.ofText text = p.target) (hu : ∀ s ∈ p, s.Unindexed)
    (hw : p.hasWildcard = true) (hv : p.endsInWildcard = true → ∃ xs, v = .list xs) :
    (∃ rest, readText (.obj (writeText t text v)) text =
        .ok (some (.list (landed p v ++ rest)))) ↔
      ¬ Stops (.obj (writeText t text v)) text := by
  rw [← exists_readText_error_iff, ← Traverse.exists_ok_iff]
  constructor
  · rintro ⟨rest, h⟩
    exact ⟨_, h⟩
  · rintro ⟨found, h⟩
    rw [h]
    rw [readText_eq_readFrom hne hp, writeText, ht] at h
    obtain ⟨rest, rfl⟩ := readFrom_write hu hw hv h
    exact ⟨rest, rfl⟩

/-- A value that is written along mirrored pieces is read back along them. -/
theorem readText_writeText (t : Members) (v : Value) {text : Text} (hne : text ≠ [])
    (hm : ∀ piece ∈ pieces text, Segment.Mirrored piece) :
    ∃ p, ofText text = .ok p ∧ Recovers t v text p := by
  obtain ⟨p, hp, ht, hu⟩ := exists_path_of_mirrored hm
  have hp' : p ≠ [] := ne_nil_of_ofText hp
  have hread : readText (.obj (writeText t text v)) text =
      readFrom (some (.obj (write t p.target v))) p := by
    rw [readText_eq_readFrom hne hp, writeText, ht]
  refine ⟨p, hp, ?_, ?_, ?_, ?_, ?_, ?_, ?_, ?_⟩
  · intro hw
    rw [hread, readFrom_write_fields hp' hu hw]
  · intro hw hl
    have hv : p.endsInWildcard = true → ∃ xs, v = .list xs := fun he => by
      rw [hl] at he
      cases he
    have h := exists_readText_iff (t := t) hne hp ht hu hw hv
    rwa [landed, hl] at h
  · rintro hl xs rfl
    have h := exists_readText_iff (t := t) hne hp ht hu (hasWildcard_of_endsInWildcard hl)
      fun _ => ⟨xs, rfl⟩
    rwa [landed, hl] at h
  · rintro hl hw xs rfl
    rw [hread, readFrom_write_lastWildcard hu hl hw]
    rfl
  · intro hl hw hv
    rw [hread, readFrom_write_lastWildcard hu hl hw, appended_of_not_list _ hv]
  · rintro rfl hw hl
    rw [hread, readFrom_write_nil hu hw, landed, hl]
    rfl
  · rintro rfl hl xs rfl
    rw [hread, readFrom_write_nil hu (hasWildcard_of_endsInWildcard hl), landed, hl]
    rfl
  · rintro rfl hl hv
    rw [hread, readFrom_write_nil hu (hasWildcard_of_endsInWildcard hl), landed, hl, if_pos rfl,
      appended_of_not_list _ hv, List.nil_append]

/-- A number and a list in the way of a value that goes to the second of two wildcards, which finds
the elements beside it too. -/
theorem readText_writeText_carried :
    let t : Members := [("a", .list [.int 0, .obj [("b", .list [.null])], .null, .list []])]
    let text : Text := "a[].b[].c"
    text ≠ [] ∧ (∀ piece ∈ pieces text, Segment.Mirrored piece) ∧
      ∃ rest, readText (.obj (writeText t text .null)) text =
        .ok (some (.list (.null :: rest))) := by
  intro t text
  have hm : ∀ piece ∈ pieces text, Segment.Mirrored piece := by decide
  obtain ⟨p, hp, h⟩ := readText_writeText t .null (show text ≠ [] by decide) hm
  have hpath : ofText text = .ok [⟨"a", .wildcard⟩, ⟨"b", .wildcard⟩, ⟨"c", .plain⟩] := by decide
  cases hpath.symm.trans hp
  refine ⟨by decide, hm, (h.below rfl rfl).mpr fun hstops => ?_⟩
  obtain ⟨piece, hpiece, hlong⟩ := hstops.exists_long
  have hshort : ∀ piece ∈ pieces text, piece.length ≤ Numeral.maxDigits := by decide
  exact absurd hlong (Nat.not_lt.mpr (hshort piece hpiece))

/-- A list beside the element that was written to stops the reading at a key of too many digits. -/
theorem readText_writeText_overlong :
    let t : Members := [("a", .list [.int 0, .list []])]
    let text : Text := [.char '.'].intercalate [("a[]" : Text), overlongPosition]
    text ≠ [] ∧ (∀ piece ∈ pieces text, Segment.Mirrored piece) ∧
      (∃ p, ofText text = .ok p ∧ p.hasWildcard = true ∧ p.endsInWildcard = false) ∧
      ∃ limit, readText (.obj (writeText t text (.int 1))) text = .error limit := by
  intro t text
  have hdot : ∀ piece ∈ [("a[]" : Text), overlongPosition], .char '.' ∉ piece := by
    intro piece hpiece hmem
    rcases List.mem_cons.mp hpiece with rfl | hpiece
    · exact absurd hmem (by decide)
    · rw [List.mem_singleton.mp hpiece] at hmem
      simp [overlongPosition, Text.ofChars] at hmem
  have hpieces : pieces text = [("a[]" : Text), overlongPosition] :=
    List.splitOn_intercalate _ hdot (List.cons_ne_nil _ _)
  have hbracket : .char '[' ∉ overlongPosition := fun h => by
    simp [overlongPosition, Text.ofChars] at h
  have hmark : ¬ Segment.Marked overlongPosition := fun h =>
    hbracket (h.subset List.mem_cons_self)
  have hplain : Segment.ofText overlongPosition = .ok { key := overlongPosition } :=
    Segment.ofText_of_not_mem hbracket
  have hp : ofText text = .ok [⟨"a", .wildcard⟩, { key := overlongPosition }] := by
    rw [ofText, hpieces, List.mapM_cons, List.mapM_cons, hplain]
    rfl
  have hm : ∀ piece ∈ pieces text, Segment.Mirrored piece := by
    rw [hpieces]
    intro piece hpiece
    rcases List.mem_cons.mp hpiece with rfl | hpiece
    · exact ⟨_, rfl, .inl rfl⟩
    · rw [List.mem_singleton.mp hpiece]
      exact ⟨_, hplain, .inr ⟨rfl, hmark⟩⟩
  have hwritten : Value.obj (writeText t text (.int 1)) =
      .obj [("a", .list [.obj [(overlongPosition, .int 1)], .list []])] := by
    rw [writeText, Target.ofText, hpieces, List.map_cons, List.map_singleton,
      Slot.ofText_field hmark]
    rfl
  refine ⟨by simp [text], hm, ⟨_, hp, rfl, rfl⟩, ?_⟩
  rw [hwritten, exists_readText_error_iff]
  exact .inr ⟨_, hp, .later rfl (List.mem_cons_of_mem _ List.mem_cons_self)
    (.here overlongPosition_overlongPosition)⟩

end Path

end Reshape

import Reshape.Proofs.Path.Write

/-!
# Writing to one target again

`Target.get?` is what a target leads to, through the lists on the way by their first elements. Of
several writes to one target the last takes the place of all before it (`write_write`), unless it
is appended to a list. A run of writes to a list comes to a single write of the list that they
gather (`foldl_write`).
-/

namespace Reshape

/-- What follows the last dot of a path's text. -/
def Path.lastPiece (text : Text) : Text :=
  (pieces text).getLast (List.splitOn_ne_nil _ _)

namespace Target

/-- The member under the last key of a target, in the object that the slots before it lead to. -/
def get? (ms : Members) : Target → Option Value
  | [] => none
  | [s] => Keyed.get? ms s.key
  | .field k :: rest => match Keyed.get? ms k with
    | some (.obj inside) => get? inside rest
    | _ => none
  | .array k :: rest => match Keyed.get? ms k with
    | some (.list (.obj inside :: _)) => get? inside rest
    | _ => none

/-- The elements of the list that a target leads to, none if there is no list. -/
def elements (ms : Members) (p : Target) : List Value :=
  Slot.oldElements (get? ms p)

def EndsInArray (p : Target) : Prop :=
  ∃ key, p.getLast? = some (.array key)

variable {p rest : Target} {s t : Slot} {k : Text} {v w : Value} {ms : Members}

theorem endsInArray_singleton : EndsInArray [s] ↔ ∃ key, s = .array key := by
  simp [EndsInArray]

theorem endsInArray_cons_cons : EndsInArray (s :: t :: rest) ↔ EndsInArray (t :: rest) := by
  simp only [EndsInArray, List.getLast?_cons_cons]

/-- The piece after the last dot tells whether a target ends in a list. -/
theorem endsInArray_ofText {text : Text} :
    EndsInArray (ofText text) ↔ Segment.Marked (Path.lastPiece text) := by
  have hlast : (ofText text).getLast? = some (Slot.ofText (Path.lastPiece text)) := by
    have hpieces : (Path.pieces text).getLast? = some (Path.lastPiece text) :=
      List.getLast?_eq_some_getLast (List.splitOn_ne_nil _ _)
    rw [ofText, List.getLast?_map, hpieces]
    rfl
  rw [EndsInArray, hlast]
  by_cases hm : Segment.Marked (Path.lastPiece text)
  · obtain ⟨key, hkey⟩ := hm
    rw [← hkey, Slot.ofText_array]
    exact ⟨fun _ => ⟨key, rfl⟩, fun _ => ⟨key, rfl⟩⟩
  · rw [Slot.ofText_field hm]
    simp [hm]

/-! ### What is under a target -/

theorem get?_nil : ∀ p : Target, get? [] p = none
  | [] => rfl
  | [_] => rfl
  | .field _ :: _ :: _ => rfl
  | .array _ :: _ :: _ => rfl

/-- Where nothing can be entered nothing is found, as in an empty object. -/
theorem get?_cons_cons :
    get? ms (s :: t :: rest) = get? (s.inside (Keyed.get? ms s.key)) (t :: rest) := by
  have hnone := (get?_nil (t :: rest)).symm
  cases s with
  | field k =>
    rw [get?, Slot.key, Slot.inside]
    · rcases Keyed.get? ms k with _ | v
      · exact hnone
      · cases v with
        | obj ns => rfl
        | _ => exact hnone
    · exact List.cons_ne_nil t rest
  | array k =>
    rw [get?, Slot.key, Slot.inside]
    · rcases Keyed.get? ms k with _ | v
      · exact hnone
      · cases v with
        | list xs =>
          rcases xs with _ | ⟨x, xs⟩
          · exact hnone
          · cases x with
            | obj ns => rfl
            | _ => exact hnone
        | _ => exact hnone
    · exact List.cons_ne_nil t rest

theorem elements_cons_cons :
    elements ms (s :: t :: rest) = elements (s.inside (Keyed.get? ms s.key)) (t :: rest) := by
  rw [elements, get?_cons_cons, elements]

/-- What is written to a list is found where the target leads to. -/
theorem get?_write_self : ∀ {p : Target} {ms : Members}, EndsInArray p →
    get? (write ms p v) p = some (.list (appended (elements ms p) v))
  | [], _, h => nomatch h
  | [s], ms, h => by
    obtain ⟨key, rfl⟩ := endsInArray_singleton.mp h
    exact Keyed.get?_put_self ms key _
  | s :: t :: rest, ms, h => by
    rw [endsInArray_cons_cons] at h
    rw [get?_cons_cons, write_cons_cons, Keyed.get?_put_self, Slot.inside_around,
      get?_write_self h, elements_cons_cons]

/-- Appending is a write of the whole list. -/
theorem write_eq_write_list : ∀ {p : Target} {ms : Members}, EndsInArray p →
    write ms p v = write ms p (.list (appended (elements ms p) v))
  | [], _, h => nomatch h
  | [s], ms, h => by
    obtain ⟨key, rfl⟩ := endsInArray_singleton.mp h
    rfl
  | s :: t :: rest, ms, h => by
    rw [endsInArray_cons_cons] at h
    rw [write_cons_cons, write_cons_cons, write_eq_write_list h, elements_cons_cons]

/-! ### Several writes -/

/-- The second of two writes to one target takes the place of the first, wherever the first went,
unless it is appended to a list. -/
theorem write_write : ∀ {p : Target} {ms : Members}, (EndsInArray p → ∃ xs, w = .list xs) →
    write (write ms p v) p w = write ms p w
  | [], _, _ => rfl
  | [s], ms, h => by
    rw [write_cons, write_cons, write_cons, Keyed.get?_put_self, Keyed.put_put_self]
    cases s with
    | field k => rfl
    | array k =>
      obtain ⟨xs, rfl⟩ := h ⟨k, rfl⟩
      rfl
  | s :: t :: rest, ms, h => by
    rw [endsInArray_cons_cons] at h
    rw [write_write_cons, write_write h, write_cons_cons]

/-- A run of writes to a list comes to a single write of what the run gathers. -/
theorem foldl_write (hp : EndsInArray p) (vs : List Value) (v : Value) (ms : Members) :
    (v :: vs).foldl (write · p ·) ms =
      write ms p (.list ((v :: vs).foldl appended (elements ms p))) := by
  induction vs generalizing ms v with
  | nil => exact write_eq_write_list hp
  | cons w vs ih =>
    have hnow : elements (write ms p v) p = appended (elements ms p) v := by
      rw [elements, get?_write_self hp]
      rfl
    rw [List.foldl_cons, ih, hnow, write_write fun _ => ⟨_, rfl⟩]
    rfl

end Target

/-! ### What a run gathers -/

/-- Values that are no lists are appended one by one. -/
theorem foldl_appended_of_not_list {vs : List Value} (h : ∀ v ∈ vs, ∀ xs, v ≠ .list xs)
    (old : List Value) : vs.foldl appended old = old ++ vs := by
  induction vs generalizing old with
  | nil => exact (List.append_nil old).symm
  | cons v vs ih =>
    rw [List.forall_mem_cons] at h
    rw [List.foldl_cons, appended_of_not_list old h.1, ih h.2, List.append_assoc]
    rfl

/-- A list takes the place of all that was gathered before it. -/
theorem foldl_appended_of_list {before after xs : List Value}
    (h : ∀ v ∈ after, ∀ ys, v ≠ .list ys) (old : List Value) :
    (before ++ .list xs :: after).foldl appended old = xs ++ after := by
  rw [List.foldl_append, List.foldl_cons, appended, foldl_appended_of_not_list h]

/-! ### Texts -/

variable (t : Members) (text : Text)

/-- The last of two writes to one path wins, unless it is appended to a list: no trace of the first
is left, in any value and in the order of any keys. -/
theorem writeText_writeText (v w : Value)
    (h : ¬ Segment.Marked (Path.lastPiece text) ∨ ∃ xs, w = .list xs) :
    writeText (writeText t text v) text w = writeText t text w := by
  refine Target.write_write fun hp => ?_
  rcases h with hm | hw
  · exact (hm (Target.endsInArray_ofText.mp hp)).elim
  · exact hw

/-- A number in the way of the element that both writes go through, and a list that the first
made. -/
theorem writeText_writeText_carrier :
    let t : Members := [("a", .list [.int 0, .int 1]), ("z", .null)]
    let text : Text := "a[].b[]"
    let w := Value.list [.int 2]
    (¬ Segment.Marked (Path.lastPiece text) ∨ ∃ xs, w = .list xs) ∧
    writeText (writeText t text (.str "x")) text w =
      ([("a", .list [.obj [("b", .list [.int 2])], .int 1]), ("z", .null)] : Members) := by
  intro t text w
  have h : ¬ Segment.Marked (Path.lastPiece text) ∨ ∃ xs, w = .list xs := .inr ⟨_, rfl⟩
  exact ⟨h, (writeText_writeText t text (.str "x") w h).trans rfl⟩

/-- A run of writes to a path that ends in `[]` loses nothing: the list there holds the elements of
the last list of the run, or else those that it held before, and then the values that were written
after them. All else is as after a single write of that list. -/
theorem exists_writeText_run {vs : List Value} (hm : Segment.Marked (Path.lastPiece text))
    (hne : vs ≠ []) :
    let p := Target.ofText text
    let after := vs.foldl (writeText · text ·) t
    ∃ gathered, after = writeText t text (.list gathered) ∧
      Target.get? after p = some (.list gathered) ∧
      ((∀ v ∈ vs, ∀ xs, v ≠ .list xs) → gathered = Target.elements t p ++ vs) ∧
      ∀ before xs later, vs = before ++ .list xs :: later → (∀ v ∈ later, ∀ ys, v ≠ .list ys) →
        gathered = xs ++ later := by
  intro p after
  have hp : Target.EndsInArray p := Target.endsInArray_ofText.mpr hm
  obtain ⟨v, vs, rfl⟩ := List.exists_cons_of_ne_nil hne
  have hafter : after = write t p (.list ((v :: vs).foldl appended (Target.elements t p))) :=
    Target.foldl_write hp vs v t
  refine ⟨_, hafter, ?_, ?_, ?_⟩
  · rw [hafter, Target.get?_write_self hp]
    rfl
  · intro hno
    exact foldl_appended_of_not_list hno _
  · intro before xs later hvs hno
    rw [hvs]
    exact foldl_appended_of_list hno _

/-- Two lists and three other values, written to a list that was not there, below an element that
was no object. -/
theorem exists_writeText_run_carrier :
    let t : Members := [("a", .list [.int 0, .int 1])]
    let text : Text := "a[].b[]"
    let before : List Value := [.str "x", .list [.int 1]]
    let later : List Value := [.null, .obj []]
    let vs := before ++ .list [.int 2, .list []] :: later
    let after := vs.foldl (writeText · text ·) t
    Segment.Marked (Path.lastPiece text) ∧ vs ≠ [] ∧ (∀ v ∈ later, ∀ ys, v ≠ .list ys) ∧
    Target.get? after (Target.ofText text) =
      some (.list [.int 2, .list [], .null, .obj []]) := by
  intro t text before later vs after
  have hm : Segment.Marked (Path.lastPiece text) := by decide
  have hlater : ∀ v ∈ later, ∀ ys, v ≠ .list ys := by simp [later]
  obtain ⟨gathered, -, hget, -, hlist⟩ := exists_writeText_run t text hm (show vs ≠ [] by simp [vs])
  rw [hlist before _ later rfl hlater] at hget
  exact ⟨hm, by simp [vs], hlater, hget⟩

end Reshape

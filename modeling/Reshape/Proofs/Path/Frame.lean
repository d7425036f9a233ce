import Reshape.Proofs.Path.Write

/-!
# What a write leaves alone

A write goes from object to object along the pieces of its path, and in each of them it changes what
is under one key (`Frame`). It goes on in the object or list that it finds there, and in a fresh one
only where it finds none (`Resumed`). `Rewritten` says so for all that a path leads through, from
the outermost object to the place of the value, and every write keeps to it (`rewritten_writeText`).
-/

namespace Reshape

/-- Two states of an object between which one key may have been given another value, or been
added at the end. -/
structure Frame (key : Text) (before after : Members) : Prop where
  others : ∀ other, other ≠ key → Keyed.get? after other = Keyed.get? before other
  stays : key ∈ Keyed.keys before → Keyed.keys after = Keyed.keys before
  joins : key ∉ Keyed.keys before → Keyed.keys after = Keyed.keys before ++ [key]

/-- What a write goes on in, where it needs a container: the one that is there, or else a fresh one,
which is empty. -/
inductive Resumed {α : Type} (container : List α → Value) : Option Value → List α → Prop
  | kept (inside : List α) : Resumed container (some (container inside)) inside
  | fresh {there : Option Value} (unfit : ∀ inside, there ≠ some (container inside)) :
      Resumed container there []

/-- An object before and after a value was written along the pieces of a path. A piece is the key
itself, or the key of a list with `[]` behind it. -/
inductive Rewritten (v : Value) : Members → List Text → Members → Prop
  | field {before after : Members} {key : Text} (unmarked : ¬ Segment.Marked key)
      (frame : Frame key before after) (now : Keyed.get? after key = some v) :
      Rewritten v before [key] after
  | array {before after : Members} {key : Text} {old : List Value}
      (frame : Frame key before after) (list : Resumed .list (Keyed.get? before key) old)
      (now : Keyed.get? after key = some (.list (appended old v))) :
      Rewritten v before [key ++ [.char '[', .char ']']] after
  | throughField {before after inner inner' : Members} {key piece : Text} {rest : List Text}
      (unmarked : ¬ Segment.Marked key) (frame : Frame key before after)
      (object : Resumed .obj (Keyed.get? before key) inner)
      (now : Keyed.get? after key = some (.obj inner'))
      (below : Rewritten v inner (piece :: rest) inner') :
      Rewritten v before (key :: piece :: rest) after
  /-- Of a list on the way, the elements after the first stay as they are. -/
  | throughArray {before after inner inner' : Members} {key piece : Text} {rest : List Text}
      {old new : List Value} (frame : Frame key before after)
      (list : Resumed .list (Keyed.get? before key) old) (object : Resumed .obj old.head? inner)
      (now : Keyed.get? after key = some (.list new)) (head : new.head? = some (.obj inner'))
      (tail : new.tail = old.tail) (length : new.length = max 1 old.length)
      (below : Rewritten v inner (piece :: rest) inner') :
      Rewritten v before ((key ++ [.char '[', .char ']']) :: piece :: rest) after

theorem frame_put (before : Members) (key : Text) (v : Value) :
    Frame key before (Keyed.put before key v) where
  others _ h := Keyed.get?_put_of_ne before v h
  stays h := by rw [Keyed.keys_put, if_pos h]
  joins h := by rw [Keyed.keys_put, if_neg h]

theorem resumed_oldMembers (there : Option Value) :
    Resumed .obj there (Slot.oldMembers there) := by
  rcases there with _ | v
  · exact .fresh nofun
  · cases v with
    | obj inside => exact .kept inside
    | _ => exact .fresh nofun

theorem resumed_oldElements (there : Option Value) :
    Resumed .list there (Slot.oldElements there) := by
  rcases there with _ | v
  · exact .fresh nofun
  · cases v with
    | list inside => exact .kept inside
    | _ => exact .fresh nofun

/-- The pieces are followed one by one, each in the container that the one before leads to. -/
theorem rewritten_write {v : Value} : ∀ {pieces : List Text}, pieces ≠ [] → ∀ before : Members,
    Rewritten v before pieces (write before (pieces.map Slot.ofText) v)
  | [piece], _, before => by
    rw [List.map_singleton]
    by_cases hm : Segment.Marked piece
    · obtain ⟨key, rfl⟩ := hm
      rw [Slot.ofText_array]
      exact .array (frame_put before key _) (resumed_oldElements _)
        (Keyed.get?_put_self before key _)
    · rw [Slot.ofText_field hm]
      exact .field hm (frame_put before piece v) (Keyed.get?_put_self before piece v)
  | piece :: next :: rest, _, before => by
    have hbelow := rewritten_write (v := v) (List.cons_ne_nil next rest)
    rw [List.map_cons]
    by_cases hm : Segment.Marked piece
    · obtain ⟨key, rfl⟩ := hm
      have hlist : Resumed .list (Keyed.get? before key) (elementsUnder before key) :=
        resumed_oldElements _
      have hobject : Resumed .obj (elementsUnder before key).head?
          (firstMembers (elementsUnder before key)) := resumed_oldMembers _
      rw [Slot.ofText_array]
      refine .throughArray (frame_put before key _) hlist hobject
        (Keyed.get?_put_self before key _) rfl rfl ?_ (hbelow _)
      rw [List.length_cons, List.length_tail]
      omega
    · have hobject : Resumed .obj (Keyed.get? before piece) (membersUnder before piece) :=
        resumed_oldMembers _
      rw [Slot.ofText_field hm]
      exact .throughField hm (frame_put before piece _) hobject
        (Keyed.get?_put_self before piece _) (hbelow _)

/-- In every object that a write goes through, it changes what is under the key of the piece there
and nothing else, and it puts a fresh container only where there is none to go on in. -/
theorem rewritten_writeText (before : Members) (text : Text) (v : Value) :
    Rewritten v before (Path.pieces text) (writeText before text v) :=
  rewritten_write (List.splitOn_ne_nil _ _) before

end Reshape

import Reshape.Path.Write
import Reshape.Proofs.Keyed
import Reshape.Proofs.Path.Grammar

/-!
# Writing as one put

`write_cons`: a write puts one member, under the key of its first slot, and what it puts
depends on nothing but the member that was there (`Slot.filled`). Further down it is a write
again, so that two writes through the same slot join below it (`write_write_cons`).

`along`: the value that keys lead to, one object inside the other. It is what a write to these
keys puts there (`along_write_self`), and a write to a target apart from them leaves it alone
(`along_write_of_apart`).
-/

namespace Reshape

theorem appended_of_not_list {v : Value} (xs : List Value) (h : ∀ ys, v ≠ .list ys) :
    appended xs v = xs ++ [v] := by
  cases v with
  | list ys => exact absurd rfl (h ys)
  | _ => rfl

namespace Slot

/-- The piece that a slot stands for. -/
def text : Slot → Text
  | field k => k
  | array k => k ++ [.char '[', .char ']']

theorem text_ofText (piece : Text) : (ofText piece).text = piece := by
  unfold ofText
  split
  · next h =>
    obtain ⟨key, rfl⟩ := List.isSuffixOf_iff_suffix.mp h
    simp [text]
  · rfl

theorem ofText_inj {p q : Text} : ofText p = ofText q ↔ p = q :=
  ⟨fun h => by rw [← text_ofText p, h, text_ofText], fun h => by rw [h]⟩

theorem ofText_field {piece : Text} (h : ¬ Segment.Marked piece) : ofText piece = field piece := by
  unfold ofText
  rw [if_neg fun hs => h (List.isSuffixOf_iff_suffix.mp hs)]

theorem ofText_array (key : Text) : ofText (key ++ [.char '[', .char ']']) = array key := by
  unfold ofText
  rw [if_pos (List.isSuffixOf_iff_suffix.mpr ⟨key, rfl⟩)]
  simp

/-- The list under a slot before a write, none if there is no list. -/
def oldElements (old : Option Value) : List Value :=
  (old.map Value.elements).getD []

/-- The object under a slot before a write, none if there is no object. -/
def oldMembers (old : Option Value) : Members :=
  (old.map Value.members).getD []

/-- What a write makes of the member under its first slot. -/
def filled (old : Option Value) (v : Value) : Slot → Target → Value
  | field _, [] => v
  | field _, s :: rest => .obj (write (oldMembers old) (s :: rest) v)
  | array _, [] => .list (appended (oldElements old) v)
  | array _, s :: rest =>
    .list (.obj (write (firstMembers (oldElements old)) (s :: rest) v) ::
      (oldElements old).tail)

end Slot

namespace Target

theorem write_cons (ms : Members) (s : Slot) (rest : Target) (v : Value) :
    write ms (s :: rest) v = Keyed.put ms s.key (s.filled (Keyed.get? ms s.key) v rest) := by
  cases s <;> cases rest <;> rfl

end Target

/-! ### A slot on the way -/

namespace Slot

/-- The members in which a target goes on below a slot. -/
def inside (s : Slot) (old : Option Value) : Members :=
  match s with
  | field _ => oldMembers old
  | array _ => firstMembers (oldElements old)

/-- The member under a slot, when the members below it have become `ms`. -/
def around (s : Slot) (old : Option Value) (ms : Members) : Value :=
  match s with
  | field _ => .obj ms
  | array _ => .list (.obj ms :: (oldElements old).tail)

theorem inside_around (s : Slot) (old : Option Value) (ms : Members) :
    s.inside (some (s.around old ms)) = ms := by
  cases s <;> rfl

theorem around_around (s : Slot) (old : Option Value) (ms ns : Members) :
    s.around (some (s.around old ms)) ns = s.around old ns := by
  cases s <;> rfl

end Slot

namespace Target

theorem write_cons_cons (ms : Members) (s t : Slot) (rest : Target) (v : Value) :
    write ms (s :: t :: rest) v = Keyed.put ms s.key (s.around (Keyed.get? ms s.key)
      (write (s.inside (Keyed.get? ms s.key)) (t :: rest) v)) := by
  cases s <;> rfl

/-- Two writes through the same slot to places below it join below it. -/
theorem write_write_cons (ms : Members) (s t u : Slot) (p q : Target) (v w : Value) :
    write (write ms (s :: t :: p) v) (s :: u :: q) w = Keyed.put ms s.key
      (s.around (Keyed.get? ms s.key)
        (write (write (s.inside (Keyed.get? ms s.key)) (t :: p) v) (u :: q) w)) := by
  rw [write_cons_cons ms, write_cons_cons (Keyed.put _ _ _), Keyed.get?_put_self,
    Keyed.put_put_self, Slot.inside_around, Slot.around_around]

theorem get?_write (ms : Members) (s : Slot) (rest : Target) (v : Value) (key : Text) :
    Keyed.get? (write ms (s :: rest) v) key =
      if key = s.key then some (s.filled (Keyed.get? ms s.key) v rest) else Keyed.get? ms key := by
  rw [write_cons, Keyed.get?_put]

/-! ### Targets that are apart -/

/-- At the first slot where they differ, targets that are apart name different keys. -/
def Apart : Target → Target → Prop
  | s :: p, t :: q => if s = t then Apart p q else s.key ≠ t.key
  | _, _ => False

theorem Apart.symm : ∀ {p q : Target}, Apart p q → Apart q p
  | s :: p, t :: q, h => by
    unfold Apart at h ⊢
    by_cases e : s = t
    · rw [if_pos e] at h
      rw [if_pos e.symm]
      exact h.symm
    · rw [if_neg e] at h
      rw [if_neg (Ne.symm e)]
      exact Ne.symm h

theorem Apart.ne_nil {p q : Target} (h : Apart p q) : p ≠ [] ∧ q ≠ [] := by
  cases p <;> cases q <;> simp_all [Apart]

end Target

/-! ### What keys lead to -/

/-- The value that keys lead to, one object inside the other. -/
def Value.along : Value → List Text → Option Value
  | v, [] => some v
  | obj ms, key :: rest => (Keyed.get? ms key).bind (·.along rest)
  | _, _ :: _ => none

namespace Target

/-- Along keys only the members of an object matter. -/
theorem along_oldMembers {old : Option Value} {key : Text} {rest : List Text} :
    (Value.obj (Slot.oldMembers old)).along (key :: rest) =
      old.bind (·.along (key :: rest)) := by
  cases old with
  | none => rfl
  | some v => cases v <;> rfl

theorem along_write_self {v : Value} : ∀ {keys : List Text} {ms : Members}, keys ≠ [] →
    (Value.obj (write ms (keys.map .field) v)).along keys = some v
  | [key], ms, _ => by simp [write, Value.along]
  | key :: k :: rest, ms, _ => by
    rw [List.map_cons, write_cons, Value.along, Slot.key, Keyed.get?_put_self]
    exact along_write_self (List.cons_ne_nil k rest)

theorem along_write_of_apart {v : Value} : ∀ {keys : List Text} {p : Target} {ms : Members},
    Apart p (keys.map .field) →
    (Value.obj (write ms p v)).along keys = (Value.obj ms).along keys
  | [], _, _, h => (h.ne_nil.2 rfl).elim
  | _ :: _, [], _, h => (h.ne_nil.1 rfl).elim
  | key :: rest, s :: p, ms, h => by
    rw [Value.along, Value.along, get?_write]
    rw [List.map_cons, Apart] at h
    by_cases hs : s = .field key
    · subst hs
      rw [if_pos rfl] at h
      obtain ⟨hp, hr⟩ := h.ne_nil
      obtain ⟨t, q, rfl⟩ := List.exists_cons_of_ne_nil hp
      obtain ⟨k, ks, rfl⟩ := List.exists_cons_of_ne_nil (fun e => hr (List.map_eq_nil_iff.mpr e))
      simp only [Slot.key, if_true, Option.bind_some]
      rw [Slot.filled, along_write_of_apart h, along_oldMembers]
    · rw [if_neg hs] at h
      rw [if_neg fun e => h e.symm]

end Target

end Reshape

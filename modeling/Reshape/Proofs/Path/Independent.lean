import Reshape.Proofs.Path.Write
import Reshape.Proofs.Value.Alike

/-!
# Independent targets

Target paths are independent if, at the first place where their pieces differ, they differ in
more than a final `[]` (`Path.Independent`). Writes to targets that are apart can change places
(`Target.write_comm`), and a write takes no notice of the order of keys (`Target.write_alike`).
Neither of two independent paths leads into what is written at the other (`Path.LeadsInto`).
-/

namespace Reshape

open Value (Alike)

namespace Slot

theorem oldMembers_alike {old new : Option Value} (h : Option.Rel Alike old new) :
    Alike (.obj (oldMembers old)) (.obj (oldMembers new)) := by
  cases h with
  | none => exact .refl _
  | some h =>
    cases h with
    | refl => exact .refl _
    | list => exact .refl _
    | obj hk hm => exact .obj hk hm

theorem oldElements_alike {old new : Option Value} (h : Option.Rel Alike old new) :
    Alike (.list (oldElements old)) (.list (oldElements new)) := by
  cases h with
  | none => exact .refl _
  | some h =>
    cases h with
    | refl => exact .refl _
    | list hl he => exact .list hl he
    | obj => exact .refl _

end Slot

theorem firstMembers_alike {xs ys : List Value} (h : Alike (.list xs) (.list ys)) :
    Alike (.obj (firstMembers xs)) (.obj (firstMembers ys)) := by
  obtain ⟨hl, he⟩ := Value.alike_list_iff.mp h
  cases xs <;> cases ys
  · exact .refl _
  · simp at hl
  · simp at hl
  · exact Slot.oldMembers_alike (.some (he 0 _ _ rfl rfl))

theorem appended_alike {xs ys : List Value} (h : Alike (.list xs) (.list ys)) (v : Value) :
    Alike (.list (appended xs v)) (.list (appended ys v)) := by
  cases v <;> first | exact .refl _ | exact h.concat _

namespace Target

theorem write_alike {v : Value} : ∀ {p : Target} {ms ns : Members},
    Alike (.obj ms) (.obj ns) → Alike (.obj (write ms p v)) (.obj (write ns p v))
  | [], _, _, h => h
  | s :: rest, ms, ns, h => by
    rw [write_cons, write_cons]
    have hold := h.get? s.key
    refine h.put s.key ?_
    cases s with
    | field k =>
      cases rest with
      | nil => exact .refl v
      | cons t rest => exact write_alike (Slot.oldMembers_alike hold)
    | array k =>
      have hxs := Slot.oldElements_alike hold
      cases rest with
      | nil => exact appended_alike hxs v
      | cons t rest => exact .cons (write_alike (firstMembers_alike hxs)) hxs.tail

theorem write_comm {v w : Value} : ∀ {p q : Target}, Apart p q → ∀ ms : Members,
    Alike (.obj (write (write ms p v) q w)) (.obj (write (write ms q w) p v))
  | s :: p, t :: q, h, ms => by
    rw [Apart] at h
    by_cases hst : s = t
    · subst hst
      rw [if_pos rfl] at h
      obtain ⟨t, p, rfl⟩ := List.exists_cons_of_ne_nil h.ne_nil.1
      obtain ⟨u, q, rfl⟩ := List.exists_cons_of_ne_nil h.ne_nil.2
      -- Both sides put one member under the key of `s`; below it the writes meet again.
      rw [write_write_cons, write_write_cons]
      refine Alike.put (.refl _) s.key ?_
      cases s with
      | field k => exact write_comm h _
      | array k => exact .cons (write_comm h _) (.refl _)
    · rw [if_neg hst] at h
      have hother := fun x => Keyed.get?_put_of_ne ms x (Ne.symm h)
      simp only [write_cons, Keyed.get?_put_of_ne ms _ h, hother]
      exact Alike.put_comm ms _ _ (Ne.symm h)

/-- The way to a target goes into what is written at another one: it goes on from there, or it ends
in a list that is the other's value. -/
def LeadsInto : Target → Target → Prop
  | t :: others, [s] => t = s ∧ others ≠ [] ∨ s = .field s.key ∧ t = .array s.key
  | t :: others, s :: r :: rest => t = s ∧ LeadsInto others (r :: rest)
  | _, _ => False

instance : ∀ other target : Target, Decidable (LeadsInto other target)
  | t :: others, [s] => inferInstanceAs (Decidable (t = s ∧ others ≠ [] ∨ _))
  | t :: others, s :: r :: rest =>
    have := instDecidableLeadsInto others (r :: rest)
    inferInstanceAs (Decidable (t = s ∧ _))
  | [], _ => .isFalse (by simp [LeadsInto])
  | _ :: _, [] => .isFalse (by simp [LeadsInto])

theorem Apart.not_leadsInto {p q : Target} (h : Apart p q) : ¬ LeadsInto q p := by
  induction p generalizing q with
  | nil => exact (h.ne_nil.1 rfl).elim
  | cons s p ih =>
    cases q with
    | nil => exact (h.ne_nil.2 rfl).elim
    | cons t q =>
      rw [Apart] at h
      cases p with
      | nil =>
        have hst : s.key ≠ t.key := by
          split at h
          · exact (h.ne_nil.1 rfl).elim
          · exact h
        rintro (⟨rfl, -⟩ | ⟨-, rfl⟩)
        · exact hst rfl
        · exact hst rfl
      | cons r p =>
        rintro ⟨rfl, hinto⟩
        rw [if_pos rfl] at h
        exact ih h hinto

end Target

namespace Path

/-- At the first place where the pieces differ, they differ in more than a final `[]`. -/
def Diverge : List Text → List Text → Prop
  | p :: ps, q :: qs => if p = q then Diverge ps qs else (Slot.ofText p).key ≠ (Slot.ofText q).key
  | _, _ => False

/-- The texts of two target paths name different places, neither inside the other. -/
def Independent (a b : Text) : Prop :=
  Diverge (pieces a) (pieces b)

instance : ∀ ps qs : List Text, Decidable (Diverge ps qs)
  | [], _ => .isFalse id
  | _ :: _, [] => .isFalse id
  | p :: ps, q :: qs =>
    have := instDecidableDiverge ps qs
    inferInstanceAs (Decidable (ite (p = q) _ _))

instance (a b : Text) : Decidable (Independent a b) :=
  inferInstanceAs (Decidable (Diverge _ _))

/-- The path leads into what is written at another one. -/
def LeadsInto (a b : Text) : Prop :=
  Target.LeadsInto (Target.ofText a) (Target.ofText b)

instance (a b : Text) : Decidable (LeadsInto a b) :=
  inferInstanceAs (Decidable (Target.LeadsInto _ _))

theorem diverge_iff_apart : ∀ {ps qs : List Text},
    Diverge ps qs ↔ Target.Apart (ps.map Slot.ofText) (qs.map Slot.ofText)
  | [], _ => .rfl
  | _ :: _, [] => .rfl
  | p :: ps, q :: qs => by
    simp only [List.map_cons, Diverge, Target.Apart, Slot.ofText_inj, @diverge_iff_apart ps qs]

theorem independent_iff_apart {a b : Text} :
    Independent a b ↔ Target.Apart (Target.ofText a) (Target.ofText b) :=
  diverge_iff_apart

theorem not_diverge_self : ∀ ps : List Text, ¬ Diverge ps ps
  | [] => id
  | p :: ps => by
    rw [Diverge, if_pos rfl]
    exact not_diverge_self ps

theorem Independent.ne {a b : Text} (h : Independent a b) : a ≠ b :=
  fun e => not_diverge_self _ (e ▸ h)

theorem Independent.not_leadsInto {a b : Text} (h : Independent a b) : ¬ LeadsInto b a :=
  (independent_iff_apart.mp h).not_leadsInto

theorem Independent.symm {a b : Text} (h : Independent a b) : Independent b a :=
  independent_iff_apart.mpr (independent_iff_apart.mp h).symm

end Path

end Reshape

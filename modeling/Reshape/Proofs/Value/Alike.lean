import Reshape.Value
import Reshape.Proofs.Keyed

/-!
# Values that differ in the order of keys

`Value.Alike`: equal up to the order of the keys in objects, at every depth. An object takes no
notice of the order in which its members are put, so looking up, putting and going through lists
respect it.
-/

namespace Reshape

namespace Value

/-- Equal up to the order of the keys in objects, at every depth. -/
inductive Alike : Value → Value → Prop where
  | refl (v : Value) : Alike v v
  | list {xs ys : List Value} (length_eq : xs.length = ys.length)
      (elements : ∀ (i : Nat) (x y : Value), xs[i]? = some x → ys[i]? = some y → Alike x y) :
      Alike (list xs) (list ys)
  | obj {ms ns : List (Text × Value)} (keys : (Keyed.keys ms).Perm (Keyed.keys ns))
      (members : ∀ (k : Text) (x y : Value), Keyed.get? ms k = some x →
        Keyed.get? ns k = some y → Alike x y) :
      Alike (obj ms) (obj ns)

theorem alike_list_iff {xs ys : List Value} :
    Alike (.list xs) (.list ys) ↔ xs.length = ys.length ∧
      ∀ (i : Nat) (x y : Value), xs[i]? = some x → ys[i]? = some y → Alike x y := by
  constructor
  · intro h
    cases h with
    | refl => exact ⟨rfl, fun i x y hx hy => by cases hx.symm.trans hy; exact .refl x⟩
    | list hl he => exact ⟨hl, he⟩
  · exact fun ⟨hl, he⟩ => .list hl he

theorem alike_obj_iff {ms ns : List (Text × Value)} :
    Alike (.obj ms) (.obj ns) ↔ (Keyed.keys ms).Perm (Keyed.keys ns) ∧
      ∀ (k : Text) (x y : Value), Keyed.get? ms k = some x → Keyed.get? ns k = some y →
        Alike x y := by
  constructor
  · intro h
    cases h with
    | refl => exact ⟨.refl _, fun k x y hx hy => by cases hx.symm.trans hy; exact .refl x⟩
    | obj hk hm => exact ⟨hk, hm⟩
  · exact fun ⟨hk, hm⟩ => .obj hk hm

namespace Alike

theorem symm {v w : Value} (h : Alike v w) : Alike w v := by
  induction h with
  | refl v => exact .refl v
  | list hl _ ih => exact .list hl.symm fun i x y hx hy => ih i y x hy hx
  | obj hk _ ih => exact .obj hk.symm fun k x y hx hy => ih k y x hy hx

theorem trans {u v w : Value} (h : Alike u v) (h' : Alike v w) : Alike u w := by
  induction h generalizing w with
  | refl => exact h'
  | @list xs ys hl he ih =>
    cases h' with
    | refl => exact .list hl he
    | @list _ zs hl' he' =>
      refine .list (hl.trans hl') fun i x z hx hz => ?_
      obtain ⟨hi, -⟩ := List.getElem?_eq_some_iff.mp hx
      have hy : ys[i]? = some ys[i] := List.getElem?_eq_getElem (hl ▸ hi)
      exact ih i x _ hx hy (he' i _ z hy hz)
  | @obj ms ns hk hm ih =>
    cases h' with
    | refl => exact .obj hk hm
    | @obj _ ls hk' hm' =>
      refine .obj (hk.trans hk') fun k x z hx hz => ?_
      have hin : k ∈ Keyed.keys ns :=
        hk.mem_iff.mp ((Keyed.mem_keys_iff ms k).mpr (by rw [hx]; rfl))
      obtain ⟨y, hy⟩ := Option.isSome_iff_exists.mp ((Keyed.mem_keys_iff ns k).mp hin)
      exact ih k x y hx hy (hm' k y z hy hz)

/-- What alike objects hold under a key is there in both or in neither. -/
theorem get? {ms ns : List (Text × Value)} (h : Alike (.obj ms) (.obj ns)) (k : Text) :
    Option.Rel Alike (Keyed.get? ms k) (Keyed.get? ns k) := by
  obtain ⟨hk, hm⟩ := alike_obj_iff.mp h
  have hin := hk.mem_iff (a := k)
  rw [Keyed.mem_keys_iff, Keyed.mem_keys_iff] at hin
  cases hx : Keyed.get? ms k <;> cases hy : Keyed.get? ns k <;> simp only [hx, hy] at hin
  · exact .none
  · simp at hin
  · simp at hin
  · exact .some (hm k _ _ hx hy)

theorem put {ms ns : List (Text × Value)} (h : Alike (.obj ms) (.obj ns)) (k : Text)
    {v w : Value} (hv : Alike v w) :
    Alike (.obj (Keyed.put ms k v)) (.obj (Keyed.put ns k w)) := by
  obtain ⟨hk, hm⟩ := alike_obj_iff.mp h
  refine .obj ?_ fun k' x y hx hy => ?_
  · simp only [Keyed.keys_put, hk.mem_iff]
    split
    · exact hk
    · exact hk.append_right _
  · rw [Keyed.get?_put] at hx hy
    by_cases he : k' = k
    · rw [if_pos he] at hx hy
      cases hx; cases hy; exact hv
    · rw [if_neg he] at hx hy
      exact hm k' x y hx hy

theorem cons {xs ys : List Value} {v w : Value} (hv : Alike v w)
    (h : Alike (.list xs) (.list ys)) : Alike (.list (v :: xs)) (.list (w :: ys)) := by
  obtain ⟨hl, he⟩ := alike_list_iff.mp h
  refine .list (by simp [hl]) fun i x y hx hy => ?_
  cases i with
  | zero => cases hx; cases hy; exact hv
  | succ i => exact he i x y hx hy

theorem tail {xs ys : List Value} (h : Alike (.list xs) (.list ys)) :
    Alike (.list xs.tail) (.list ys.tail) := by
  obtain ⟨hl, he⟩ := alike_list_iff.mp h
  refine .list (by simp [hl]) fun i x y hx hy => ?_
  rw [List.getElem?_tail] at hx hy
  exact he _ x y hx hy

theorem concat {xs ys : List Value} (h : Alike (.list xs) (.list ys)) (v : Value) :
    Alike (.list (xs ++ [v])) (.list (ys ++ [v])) := by
  obtain ⟨hl, he⟩ := alike_list_iff.mp h
  refine .list (by simp [hl]) fun i x y hx hy => ?_
  rw [List.getElem?_append] at hx hy
  rw [← hl] at hy
  split at hx
  · next hi => rw [if_pos hi] at hy; exact he i x y hx hy
  · next hi => rw [if_neg hi] at hy; cases hx.symm.trans hy; exact .refl x

/-- Two puts under different keys can change places. -/
theorem put_comm (ms : Members) {k l : Text} (v w : Value) (h : l ≠ k) :
    Alike (.obj (Keyed.put (Keyed.put ms k v) l w)) (.obj (Keyed.put (Keyed.put ms l w) k v)) := by
  refine .obj (Keyed.keys_put_comm ms k l v w) fun i x y hx hy => ?_
  rw [Keyed.get?_put_comm ms v w h] at hx
  cases hx.symm.trans hy
  exact .refl x

end Alike

end Value

end Reshape

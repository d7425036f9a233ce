/-!
# Steps that can be stopped

What two steps come to, and what a traversal of a list comes to, told element by element.
-/

namespace Reshape

namespace Traverse

variable {α β ε : Type}

theorem bind_eq_ok_iff {x : Except ε α} {f : α → Except ε β} {b : β} :
    (x >>= f) = .ok b ↔ ∃ a, x = .ok a ∧ f a = .ok b := by
  cases x <;> simp [bind, Except.bind]

theorem exists_bind_error_iff {x : Except ε α} {f : α → Except ε β} :
    (∃ e, (x >>= f) = .error e) ↔
      (∃ e, x = .error e) ∨ ∃ a, x = .ok a ∧ ∃ e, f a = .error e := by
  cases x <;> simp [bind, Except.bind]

theorem pure_eq_ok_iff {a b : α} : (pure a : Except ε α) = .ok b ↔ a = b := by
  simp [pure, Except.pure]

theorem throw_eq_ok_iff {e : ε} {a : α} : (throw e : Except ε α) = .ok a ↔ False := by
  simp [throw, throwThe, MonadExceptOf.throw]

theorem exists_ok_iff {x : Except ε α} : (∃ a, x = .ok a) ↔ ¬ ∃ e, x = .error e := by
  cases x <;> simp

theorem exists_ok_of_isOk {x : Except ε α} (h : x.isOk = true) : ∃ a, x = .ok a := by
  cases x with
  | error e => cases h
  | ok a => exact ⟨a, rfl⟩

/-! ### Traversals -/

theorem mapM_eq_ok_iff {f : α → Except ε β} {xs : List α} {ys : List β} :
    xs.mapM f = .ok ys ↔ xs.map f = ys.map .ok := by
  induction xs generalizing ys with
  | nil => cases ys <;> simp [pure, Except.pure]
  | cons x xs ih =>
    rw [List.mapM_cons, List.map_cons]
    cases hx : f x with
    | error e => cases ys <;> simp [bind, Except.bind]
    | ok y =>
      cases hxs : xs.mapM f with
      | error e =>
        have hne : ∀ zs : List β, xs.map f ≠ zs.map .ok := fun zs h => by
          rw [ih.mpr h] at hxs
          cases hxs
        cases ys <;> simp [bind, Except.bind, hne]
      | ok zs =>
        rw [ih.mp hxs]
        cases ys with
        | nil => simp [bind, Except.bind, pure, Except.pure]
        | cons z ys =>
          have hinj : zs.map (Except.ok (ε := ε)) = ys.map .ok ↔ zs = ys :=
            List.map_inj_right fun _ _ h => Except.ok.inj h
          simp [bind, Except.bind, pure, Except.pure, hinj]

theorem mem_iff_of_mapM_eq_ok {f : α → Except ε β} {xs : List α} {ys : List β}
    (h : xs.mapM f = .ok ys) {y : β} : y ∈ ys ↔ ∃ x ∈ xs, f x = .ok y := by
  have hmem : y ∈ ys ↔ .ok y ∈ ys.map (Except.ok (ε := ε)) := by simp
  rw [hmem, ← mapM_eq_ok_iff.mp h, List.mem_map]

theorem exists_of_mem_of_mapM_eq_ok {f : α → Except ε β} {xs : List α} {ys : List β}
    (h : xs.mapM f = .ok ys) {x : α} (hx : x ∈ xs) : ∃ y ∈ ys, f x = .ok y := by
  have hmem : f x ∈ ys.map .ok := mapM_eq_ok_iff.mp h ▸ List.mem_map_of_mem hx
  obtain ⟨y, hy, heq⟩ := List.mem_map.mp hmem
  exact ⟨y, hy, heq.symm⟩

/-- A traversal that is not stopped gives what its steps give, if each can give one thing only. -/
theorem mapM_eq_ok_iff_map {f : α → Except ε β} {g : α → β} (hg : ∀ x y, f x = .ok y → y = g x)
    {xs : List α} {ys : List β} :
    xs.mapM f = .ok ys ↔ (∀ x ∈ xs, ∃ y, f x = .ok y) ∧ ys = xs.map g := by
  rw [mapM_eq_ok_iff]
  induction xs generalizing ys with
  | nil => simp [eq_comm]
  | cons x xs ih =>
    cases ys with
    | nil => simp
    | cons y ys =>
      simp only [List.map_cons, List.cons.injEq, List.forall_mem_cons, ih]
      constructor
      · rintro ⟨hx, hxs, hys⟩
        exact ⟨⟨⟨y, hx⟩, hxs⟩, hg x y hx, hys⟩
      · rintro ⟨⟨⟨z, hz⟩, hxs⟩, hy, hys⟩
        exact ⟨by rw [hz, hy, hg x z hz], hxs, hys⟩

/-- A traversal is stopped exactly if one of its steps is. -/
theorem exists_mapM_error_iff {f : α → Except ε β} {xs : List α} :
    (∃ e, xs.mapM f = .error e) ↔ ∃ x ∈ xs, ∃ e, f x = .error e := by
  induction xs with
  | nil => simp [pure, Except.pure]
  | cons x xs ih =>
    rw [List.mapM_cons]
    cases hx : f x with
    | error e => simp [bind, Except.bind, hx]
    | ok y =>
      simp only [List.mem_cons, exists_eq_or_imp, hx, reduceCtorEq, exists_false, false_or, ← ih]
      cases xs.mapM f <;> simp [bind, Except.bind, pure, Except.pure]

theorem exists_mapM_ok {f : α → Except ε β} {xs : List α} (h : ∀ x ∈ xs, ∃ b, f x = .ok b) :
    ∃ ys, xs.mapM f = .ok ys := by
  rw [exists_ok_iff, exists_mapM_error_iff]
  rintro ⟨x, hx, e, he⟩
  obtain ⟨b, hb⟩ := h x hx
  cases hb.symm.trans he

/-- A traversal of positions fails at the first that fails. -/
theorem exists_first_of_mapM_range {f : Nat → Except ε β} {n : Nat} {e : ε}
    (h : (List.range n).mapM f = .error e) :
    ∃ k < n, f k = .error e ∧ ∀ j < k, ∃ b, f j = .ok b := by
  induction n with
  | zero => cases h
  | succ n ih =>
    rw [List.range_succ, List.mapM_append] at h
    cases hbefore : (List.range n).mapM f with
    | error e' =>
      rw [hbefore] at h
      cases h
      obtain ⟨k, hk, hfail, hfine⟩ := ih hbefore
      exact ⟨k, Nat.lt_succ_of_lt hk, hfail, hfine⟩
    | ok bs =>
      rw [hbefore] at h
      refine ⟨n, Nat.lt_succ_self n, ?_, fun j hj => ?_⟩
      · cases hn : f n with
        | error e' =>
          rw [List.mapM_cons, hn] at h
          cases h
          rfl
        | ok b =>
          rw [List.mapM_cons, hn] at h
          cases h
      · obtain ⟨b, -, hb⟩ := exists_of_mem_of_mapM_eq_ok hbefore (List.mem_range.mpr hj)
        exact ⟨b, hb⟩

end Traverse

end Reshape

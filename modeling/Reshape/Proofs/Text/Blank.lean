import Mathlib.Data.List.TakeWhile
import Reshape.Text.Symbol

/-!
# Laws of trimming

Trimming takes a list apart into two margins and a core that is tight between them
(`exists_margins`), and that is the only way to take it apart (`trimWhere_of_tight`). So margins of
its own are all that a list can be given without a trace (`trimWhere_margins`), and a list is
trimmed before or after its elements are spelled out (`trimWhere_flatMap`).
-/

namespace Reshape

variable {α : Type} {p : α → Bool} {front core back xs : List α}

/-- `p` picks out neither the first element nor the last. -/
structure Tight (p : α → Bool) (xs : List α) : Prop where
  head : ∀ x, xs.head? = some x → p x = false
  last : ∀ x, xs.getLast? = some x → p x = false

theorem tight_nil (p : α → Bool) : Tight p [] :=
  ⟨nofun, nofun⟩

theorem dropWhile_of_tight (h : Tight p xs) : xs.dropWhile p = xs := by
  cases xs with
  | nil => rfl
  | cons x rest => rw [List.dropWhile_cons_of_neg (by simp [h.head x rfl])]

theorem Tight.reverse (h : Tight p xs) : Tight p xs.reverse where
  head x hx := h.last x (List.head?_reverse ▸ hx)
  last x hx := h.head x (List.getLast?_reverse ▸ hx)

/-- Whatever is tight between margins is what trimming leaves. -/
theorem trimWhere_of_tight (hcore : Tight p core) (hfront : ∀ x ∈ front, p x = true)
    (hback : ∀ x ∈ back, p x = true) : trimWhere p (front ++ core ++ back) = core := by
  have hback' : ∀ x ∈ back.reverse, p x = true := fun x hx => hback x (List.mem_reverse.mp hx)
  rw [trimWhere, List.append_assoc, List.dropWhile_append_of_pos hfront]
  cases core with
  | nil => rw [List.nil_append, List.dropWhile_eq_nil_iff.mpr hback, List.reverse_nil,
      List.dropWhile_nil, List.reverse_nil]
  | cons x rest =>
    have hx : ¬ p x = true := by simp [hcore.head x rfl]
    rw [List.cons_append, List.dropWhile_cons_of_neg hx, ← List.cons_append, List.reverse_append,
      List.dropWhile_append_of_pos hback', dropWhile_of_tight hcore.reverse, List.reverse_reverse]

theorem exists_margins (p : α → Bool) (xs : List α) :
    ∃ front back, xs = front ++ trimWhere p xs ++ back ∧ (∀ x ∈ front, p x = true) ∧
      (∀ x ∈ back, p x = true) ∧ Tight p (trimWhere p xs) := by
  have hrest : xs.dropWhile p =
      trimWhere p xs ++ ((xs.dropWhile p).reverse.takeWhile p).reverse := by
    rw [trimWhere, ← List.reverse_append, List.takeWhile_append_dropWhile, List.reverse_reverse]
  refine ⟨xs.takeWhile p, ((xs.dropWhile p).reverse.takeWhile p).reverse, ?_, ?_, ?_, ?_, ?_⟩
  · rw [List.append_assoc, ← hrest, List.takeWhile_append_dropWhile]
  · exact fun x hx => List.mem_takeWhile_imp hx
  · exact fun x hx => List.mem_takeWhile_imp (List.mem_reverse.mp hx)
  · intro x hx
    have hhead : (xs.dropWhile p).head? = some x := by
      rw [hrest, List.head?_append, hx, Option.some_or]
    have hnot := List.head?_dropWhile_not p xs
    rw [hhead] at hnot
    simpa using hnot
  · intro x hx
    rw [trimWhere, List.getLast?_reverse] at hx
    have hnot := List.head?_dropWhile_not p (xs.dropWhile p).reverse
    rw [hx] at hnot
    simpa using hnot

theorem trimWhere_eq_nil_iff : trimWhere p xs = [] ↔ ∀ x ∈ xs, p x = true := by
  obtain ⟨front, back, hxs, hfront, hback, -⟩ := exists_margins p xs
  constructor
  · intro h x hx
    rw [hxs, h, List.append_nil, List.mem_append] at hx
    exact hx.elim (hfront x) (hback x)
  · intro h
    have hnil : trimWhere p (xs ++ [] ++ []) = [] := trimWhere_of_tight (tight_nil p) h nofun
    rwa [List.append_nil, List.append_nil] at hnil

theorem trimWhere_margins (hfront : ∀ x ∈ front, p x = true) (hback : ∀ x ∈ back, p x = true)
    (xs : List α) : trimWhere p (front ++ xs ++ back) = trimWhere p xs := by
  obtain ⟨first, last, hxs, hfirst, hlast, htight⟩ := exists_margins p xs
  have hall : front ++ xs ++ back = (front ++ first) ++ trimWhere p xs ++ (last ++ back) := by
    rw [hxs, trimWhere_of_tight htight hfirst hlast]
    simp only [List.append_assoc]
  rw [hall]
  exact trimWhere_of_tight htight (List.forall_mem_append.mpr ⟨hfront, hfirst⟩)
    (List.forall_mem_append.mpr ⟨hlast, hback⟩)

theorem trimWhere_trimWhere (p : α → Bool) (xs : List α) :
    trimWhere p (trimWhere p xs) = trimWhere p xs := by
  obtain ⟨-, -, -, -, -, htight⟩ := exists_margins p xs
  have hnone : ∀ x ∈ ([] : List α), p x = true := nofun
  have hself := trimWhere_of_tight htight hnone hnone
  rwa [List.nil_append, List.append_nil] at hself

/-! ### Elements spelled out -/

variable {f : α → List α}

theorem Tight.flatMap (h : Tight p xs) (hne : ∀ x, f x ≠ []) (hf : ∀ x, ∀ y ∈ f x, p y = p x) :
    Tight p (xs.flatMap f) := by
  constructor
  · intro y hy
    cases xs with
    | nil => cases hy
    | cons x rest =>
      obtain ⟨first, others, hfirst⟩ := List.exists_cons_of_ne_nil (hne x)
      rw [List.flatMap_cons, hfirst, List.cons_append, List.head?_cons, Option.some.injEq] at hy
      subst hy
      rw [hf x first (hfirst ▸ List.mem_cons_self), h.head x rfl]
  · intro y hy
    rcases List.eq_nil_or_concat xs with rfl | ⟨before, x, rfl⟩
    · cases hy
    · have hlast := List.getLast?_eq_some_getLast (hne x)
      rw [List.concat_eq_append, List.flatMap_append, List.flatMap_singleton, List.getLast?_append,
        hlast, Option.some_or, ← hlast] at hy
      rw [hf x y (List.mem_of_getLast? hy), h.last x (by simp)]

/-- Where the pieces of an element are picked out exactly if it is itself. -/
theorem trimWhere_flatMap (hne : ∀ x, f x ≠ []) (hf : ∀ x, ∀ y ∈ f x, p y = p x) (xs : List α) :
    trimWhere p (xs.flatMap f) = (trimWhere p xs).flatMap f := by
  obtain ⟨front, back, hxs, hfront, hback, htight⟩ := exists_margins p xs
  have hmargin : ∀ {margin : List α}, (∀ x ∈ margin, p x = true) →
      ∀ y ∈ margin.flatMap f, p y = true := by
    intro margin hmargin y hy
    obtain ⟨x, hx, hyx⟩ := List.mem_flatMap.mp hy
    rw [hf x y hyx, hmargin x hx]
  have hall : xs.flatMap f =
      front.flatMap f ++ (trimWhere p xs).flatMap f ++ back.flatMap f := by
    rw [← List.flatMap_append, ← List.flatMap_append, ← hxs]
  rw [hall]
  exact trimWhere_of_tight (htight.flatMap hne hf) (hmargin hfront) (hmargin hback)

end Reshape

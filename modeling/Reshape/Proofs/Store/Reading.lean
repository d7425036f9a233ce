import Mathlib.Data.List.Forall2
import Reshape.Proofs.Traverse
import Reshape.Store.Paths

/-!
# Reading what looks alike

What a path finds depends only on what is seen on the way: where things of two kinds are seen alike
(`Look.Rel`), a path finds things that are related again, or reading is stopped for the same reason
(`Look.Rel.readText`). A value is read as it is read where values are looked at (`readText_value`).
-/

namespace Reshape

namespace Traverse

/-- Two steps that can be stopped are stopped alike, or come to related things. -/
inductive Rel {ε α β : Type} (R : α → β → Prop) : Except ε α → Except ε β → Prop
  | ok {a : α} {b : β} (h : R a b) : Rel R (.ok a) (.ok b)
  | error (e : ε) : Rel R (.error e) (.error e)

section

variable {ε α β α' β' : Type} {R : α → β → Prop} {S : α' → β' → Prop}

theorem Rel.bind {x : Except ε α} {y : Except ε β} {f : α → Except ε α'} {g : β → Except ε β'}
    (h : Rel R x y) (hfg : ∀ a b, R a b → Rel S (f a) (g b)) : Rel S (x >>= f) (y >>= g) := by
  cases h with
  | ok h => exact hfg _ _ h
  | error e => exact .error e

theorem Rel.map {x : Except ε α} {y : Except ε β} {f : α → α'} {g : β → β'} (h : Rel R x y)
    (hfg : ∀ a b, R a b → S (f a) (g b)) : Rel S (do return f (← x)) (do return g (← y)) :=
  h.bind fun a b hab => .ok (hfg a b hab)

theorem Rel.mapM {f : α → Except ε α'} {g : β → Except ε β'}
    (hfg : ∀ a b, R a b → Rel S (f a) (g b)) {xs : List α} {ys : List β}
    (h : List.Forall₂ R xs ys) : Rel (List.Forall₂ S) (xs.mapM f) (ys.mapM g) := by
  induction h with
  | nil => exact .ok .nil
  | cons hxy _ ih =>
    rw [List.mapM_cons, List.mapM_cons]
    exact (hfg _ _ hxy).bind fun a b hab => ih.map fun as bs h => .cons hab h

end

end Traverse

/-! ### Related things -/

/-- The same names in the same order, with related things under them. -/
abbrev Keyed.Rel {κ α β : Type} (R : α → β → Prop) : Keyed κ α → Keyed κ β → Prop :=
  List.Forall₂ fun p q => p.1 = q.1 ∧ R p.2 q.2

inductive View.Rel {α β : Type} (R : α → β → Prop) : View α → View β → Prop
  | scalar (x : Scalar) : View.Rel R (.scalar x) (.scalar x)
  | list {xs : List α} {ys : List β} (h : List.Forall₂ R xs ys) : View.Rel R (.list xs) (.list ys)
  | obj {ms : Keyed Text α} {ns : Keyed Text β} (h : Keyed.Rel R ms ns) :
      View.Rel R (.obj ms) (.obj ns)

inductive Found.Rel {α β : Type} (R : α → β → Prop) : Found α → Found β → Prop
  | one {a : α} {b : β} (h : R a b) : Found.Rel R (.one a) (.one b)
  | all {as : List α} {bs : List β} (h : List.Forall₂ R as bs) : Found.Rel R (.all as) (.all bs)

/-- Related things are seen alike. -/
structure Look.Rel {α β : Type} (look : Look α) (look' : Look β) (R : α → β → Prop) : Prop where
  view : ∀ {a b}, R a b → View.Rel R (look.view a) (look'.view b)
  scalar : ∀ x, R (look.scalar x) (look'.scalar x)

section

variable {α β : Type} {R : α → β → Prop}

theorem Keyed.Rel.get? {κ : Type} [DecidableEq κ] {ms : Keyed κ α} {ns : Keyed κ β}
    (h : Keyed.Rel R ms ns) (key : κ) : Option.Rel R (Keyed.get? ms key) (Keyed.get? ns key) := by
  induction h with
  | nil => exact .none
  | @cons p q _ _ hpq _ ih =>
    rw [Keyed.get?, Keyed.get?, hpq.1]
    split
    · exact .some hpq.2
    · exact ih

theorem rel_getElem? {xs : List α} {ys : List β} (h : List.Forall₂ R xs ys) (position : Nat) :
    Option.Rel R xs[position]? ys[position]? := by
  induction h generalizing position with
  | nil => exact .none
  | cons hxy _ ih =>
    cases position with
    | zero => exact .some hxy
    | succ position => simpa using ih position

theorem rel_flatten {xss : List (List α)} {yss : List (List β)}
    (h : List.Forall₂ (List.Forall₂ R) xss yss) : List.Forall₂ R xss.flatten yss.flatten := by
  induction h with
  | nil => exact .nil
  | cons hxy _ ih => exact List.rel_append hxy ih

theorem rel_getD {x : Option α} {y : Option β} (h : Option.Rel R x y) {a : α} {b : β}
    (hab : R a b) :
    R (x.getD a) (y.getD b) := by
  cases h with
  | some h => exact h
  | none => exact hab

/-! ### Reading -/

namespace Look.Rel

variable {look : Look α} {look' : Look β} (h : Look.Rel look look' R)

include h

theorem isNull {a : α} {b : β} (hab : R a b) : look.isNull a = look'.isNull b := by
  have hview := h.view hab
  unfold Look.isNull
  generalize look.view a = v, look'.view b = w at hview
  cases hview with
  | scalar x => cases x <;> rfl
  | list _ => rfl
  | obj _ => rfl

theorem under {a : α} {b : β} (hab : R a b) (key : Text) :
    Traverse.Rel (Option.Rel R) (look.under a key) (look'.under b key) := by
  have hview := h.view hab
  unfold Look.under
  generalize look.view a = v, look'.view b = w at hview
  cases hview with
  | scalar x => exact .ok .none
  | list hxs =>
    cases listPosition? key with
    | error e => exact .error e
    | ok position =>
      cases position with
      | none => exact .ok .none
      | some position => exact .ok (rel_getElem? hxs position)
  | obj hms => exact .ok (hms.get? key)

theorem fanOut {x : Option α} {y : Option β} (hxy : Option.Rel R x y) :
    List.Forall₂ R (look.fanOut x) (look'.fanOut y) := by
  cases hxy with
  | none => exact .nil
  | @some a b hab =>
    have hview := h.view hab
    unfold Look.fanOut
    dsimp only
    generalize look.view a = v, look'.view b = w at hview
    cases hview with
    | scalar x =>
      cases x with
      | null => exact .nil
      | _ => exact .cons hab .nil
    | list hxs => exact hxs
    | obj hms => exact .cons hab .nil

theorem pick (position : Nat) {x : Option α} {y : Option β} (hxy : Option.Rel R x y) :
    Option.Rel R (look.pick position x) (look'.pick position y) := by
  cases hxy with
  | none => exact .none
  | @some a b hab =>
    have hview := h.view hab
    unfold Look.pick
    dsimp only
    generalize look.view a = v, look'.view b = w at hview
    cases hview with
    | scalar x => exact .none
    | list hxs => exact rel_getElem? hxs position
    | obj hms => exact .none

theorem spread (s : Segment) {a : α} {b : β} (hab : R a b) :
    Traverse.Rel (List.Forall₂ R) (look.spread s a) (look'.spread s b) := by
  unfold Look.spread
  rw [h.isNull hab]
  split
  · exact .ok .nil
  · refine (h.under hab s.key).bind fun x y hxy => ?_
    cases s.access with
    | plain => exact .ok (.cons (rel_getD hxy (h.scalar .null)) .nil)
    | index position => exact .ok (.cons (rel_getD (h.pick position hxy) (h.scalar .null)) .nil)
    | wildcard => exact .ok (h.fanOut hxy)

theorem readAll {xs : List α} {ys : List β} (hxy : List.Forall₂ R xs ys) (p : Path) :
    Traverse.Rel (List.Forall₂ R) (look.readAll xs p) (look'.readAll ys p) := by
  induction p generalizing xs ys with
  | nil => exact .ok hxy
  | cons s rest ih =>
    unfold Look.readAll
    exact (Traverse.Rel.mapM (fun _ _ hab => h.spread s hab) hxy).bind fun _ _ hlists =>
      ih (rel_flatten hlists)

/-- A path goes on alike from what is seen alike under its first key. -/
theorem enter {seg : Segment} {rest : Path} {a : α} {b : β} (hnull : look.isNull a = look'.isNull b)
    (hunder : Traverse.Rel (Option.Rel R) (look.under a seg.key) (look'.under b seg.key))
    (hrest : ∀ {x y}, Option.Rel R x y →
      Traverse.Rel (Option.Rel (Found.Rel R)) (look.readFrom x rest) (look'.readFrom y rest)) :
    Traverse.Rel (Option.Rel (Found.Rel R)) (look.readFrom (some a) (seg :: rest))
      (look'.readFrom (some b) (seg :: rest)) := by
  unfold Look.readFrom
  dsimp only
  rw [hnull]
  split
  · exact .ok .none
  · refine hunder.bind fun u v huv => ?_
    cases seg.access with
    | plain => exact hrest huv
    | index position => exact hrest (h.pick position huv)
    | wildcard => exact (h.readAll (h.fanOut huv) rest).map fun _ _ hall => .some (.all hall)

theorem readFrom {x : Option α} {y : Option β} (hxy : Option.Rel R x y) (p : Path) :
    Traverse.Rel (Option.Rel (Found.Rel R)) (look.readFrom x p) (look'.readFrom y p) := by
  induction p generalizing x y with
  | nil =>
    cases hxy with
    | none => exact .ok .none
    | some hab => exact .ok (.some (.one hab))
  | cons seg rest ih =>
    cases hxy with
    | none => exact .ok .none
    | some hab => exact h.enter (h.isNull hab) (h.under hab seg.key) ih

/-- Things that are seen alike are read alike. -/
theorem readText {a : α} {b : β} (hab : R a b) (text : Text) :
    Traverse.Rel (Option.Rel (Found.Rel R)) (look.readText a text) (look'.readText b text) := by
  unfold Look.readText
  split
  · exact .ok .none
  · cases Path.ofText text with
    | error e => exact .error e
    | ok p => exact h.readFrom (.some hab) p

end Look.Rel

end

/-! ### Values -/

/-- What a path finds in a value, as a value. -/
def Found.value : Found Value → Value
  | .one v => v
  | .all vs => .list vs

theorem under_value (v : Value) (key : Text) : Value.look.under v key = v.under key := by
  cases v <;> rfl

theorem fanOut_value (v : Option Value) : Value.look.fanOut v = fanOut v := by
  rcases v with _ | v
  · rfl
  · cases v <;> rfl

theorem pick_value (position : Nat) (v : Option Value) :
    Value.look.pick position v = pick position v := by
  rcases v with _ | v
  · rfl
  · cases v <;> rfl

theorem spread_value (s : Segment) (v : Value) : Value.look.spread s v = s.spread v := by
  cases v with
  | null => rfl
  | _ =>
    unfold Look.spread Segment.spread
    simp only [under_value, fanOut_value, pick_value]
    rfl

theorem readAll_value (vs : List Value) (p : Path) :
    Value.look.readAll vs p = Path.readAll vs p := by
  induction p generalizing vs with
  | nil => rfl
  | cons s rest ih =>
    have hspread : Value.look.spread s = s.spread := funext (spread_value s)
    simp only [Look.readAll, Path.readAll, hspread, ih]

theorem readFrom_value (v : Option Value) (p : Path) :
    (do return (← Value.look.readFrom v p).map Found.value) = Path.readFrom v p := by
  induction p generalizing v with
  | nil => cases v <;> rfl
  | cons s rest ih =>
    cases v with
    | none => rfl
    | some v =>
      by_cases hv : v = .null
      · subst hv
        rfl
      · rw [Path.readFrom_cons hv, Look.readFrom]
        have hnull : Value.look.isNull v = false := by
          cases v <;> first | rfl | exact absurd rfl hv
        simp only [hnull, under_value, fanOut_value, pick_value, readAll_value]
        cases v.under s.key with
        | error e => rfl
        | ok found =>
          cases s.access with
          | plain => exact ih found
          | index position => exact ih (pick position found)
          | wildcard =>
            dsimp only [bind, Except.bind]
            cases Path.readAll (fanOut found) rest <;> rfl

/-- A value is read as whatever is looked at. -/
theorem readText_value (v : Value) (text : Text) :
    (do return (← Value.look.readText v text).map Found.value) = Path.readText v text := by
  unfold Look.readText Path.readText
  split
  · rfl
  · cases Path.ofText text with
    | error e => rfl
    | ok p => exact readFrom_value (some v) p

end Reshape

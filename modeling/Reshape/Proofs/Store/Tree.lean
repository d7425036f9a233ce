import Mathlib.Data.List.Forall2
import Reshape.Store

/-!
# Trees in a store

A store is a graph, in which several cells can lead to one node. `Tree` is what is seen of it from
one cell, unfolded: a tree stands in a store (`Tree.Standing`) if the nodes at its places hold what
it says. A leaf is a cell that is not looked into, with the value that stands for it. Where all
leaves are scalars the whole of what a cell leads to is seen, and the cell shows a value
(`Store.Shows`). A value that is loaded is a tree of its own (`exists_tree_load`): it shares no node
with anything.
-/

namespace Reshape

namespace Store

/-- One store has all nodes of the other, unchanged. -/
def Extends (s t : Store) : Prop :=
  ∀ a n, s.get? a = some n → t.get? a = some n

namespace Extends

variable {s t u : Store}

theorem refl (s : Store) : s.Extends s :=
  fun _ _ h => h

theorem trans (h : s.Extends t) (h' : t.Extends u) : s.Extends u :=
  fun a n hn => h' a n (h a n hn)

theorem push (s : Store) (n : Node) : s.Extends (s.push n) := by
  intro a m hm
  rw [get?_push, if_neg (Nat.ne_of_lt (lt_size_of_get? hm)), hm]

theorem get?_eq (h : s.Extends t) {a : Nat} (ha : a < s.size) : t.get? a = s.get? a := by
  cases hn : s.get? a with
  | none => exact absurd ha (Nat.not_lt.mpr ((s.get?_eq_none_iff a).mp hn))
  | some n => exact h a n hn

theorem size_le (h : s.Extends t) : s.size ≤ t.size := by
  refine Nat.le_of_not_lt fun hlt => ?_
  have hget : t.get? t.size = s.get? t.size := h.get?_eq hlt
  rw [(t.get?_eq_none_iff _).mpr (Nat.le_refl _), eq_comm, s.get?_eq_none_iff] at hget
  omega

end Extends

/-- Every cell in a node leads to a node. -/
def Closed (s : Store) : Prop :=
  ∀ a n, s.get? a = some n → ∀ b, .ref b ∈ n.cells → b < s.size

/-- A cell leads to a node, if it leads anywhere. -/
def Has (s : Store) : Cell → Prop
  | .scalar _ => True
  | .ref a => a < s.size

theorem Has.mono {s t : Store} {c : Cell} (h : s.Has c) (hsize : s.size ≤ t.size) : t.Has c := by
  cases c with
  | scalar x => trivial
  | ref a => exact Nat.lt_of_lt_of_le h hsize

end Store

/-! ### Trees -/

inductive Tree where
  | leaf (c : Cell) (v : Value)
  | list (address : Nat) (xs : List Tree)
  | obj (address : Nat) (ms : List (Text × Tree))

/-- The trees of members, under their names. -/
abbrev Branches := Keyed Text Tree

namespace Tree

theorem sizeOf_lt_list {a : Nat} {xs : List Tree} {t : Tree} (h : t ∈ xs) :
    sizeOf t < sizeOf (list a xs) := by
  have ht := List.sizeOf_lt_of_mem h
  simp only [list.sizeOf_spec]
  omega

theorem sizeOf_lt_obj {a : Nat} {ms : List (Text × Tree)} {m : Text × Tree} (h : m ∈ ms) :
    sizeOf m.2 < sizeOf (obj a ms) := by
  have hm := List.sizeOf_lt_of_mem h
  obtain ⟨k, t⟩ := m
  simp only [Prod.mk.sizeOf_spec, obj.sizeOf_spec] at hm ⊢
  omega

@[elab_as_elim, induction_eliminator]
theorem induct {motive : Tree → Prop} (leaf : ∀ c v, motive (leaf c v))
    (list : ∀ a xs, (∀ t ∈ xs, motive t) → motive (list a xs))
    (obj : ∀ a ms, (∀ m ∈ ms, motive m.2) → motive (obj a ms)) : (t : Tree) → motive t
  | .leaf c v => leaf c v
  | .list a xs => list a xs fun t _ => induct leaf list obj t
  | .obj a ms => obj a ms fun m _ => induct leaf list obj m.2
termination_by t => sizeOf t
decreasing_by
  · exact sizeOf_lt_list ‹_›
  · exact sizeOf_lt_obj ‹_›

def cell : Tree → Cell
  | leaf c _ => c
  | list a _ | obj a _ => .ref a

end Tree

def Branches.cells (ms : Branches) : Keyed Text Cell :=
  ms.map fun m => (m.1, m.2.cell)

namespace Tree

def value : Tree → Value
  | leaf _ v => v
  | list _ xs => .list (xs.map value)
  | obj _ ms => .obj (ms.map fun m => (m.1, m.2.value))
decreasing_by
  · exact sizeOf_lt_list ‹_›
  · exact sizeOf_lt_obj ‹_›

/-- The addresses of the nodes, each as often as it is led to. -/
def places : Tree → List Nat
  | leaf _ _ => []
  | list a xs => a :: xs.flatMap places
  | obj a ms => a :: ms.flatMap fun m => m.2.places
decreasing_by
  · exact sizeOf_lt_list ‹_›
  · exact sizeOf_lt_obj ‹_›

/-- The nodes of a store hold what the tree says. -/
def Standing (s : Store) : Tree → Prop
  | leaf _ _ => True
  | list a xs => s.get? a = some (.list (xs.map cell)) ∧ ∀ t ∈ xs, t.Standing s
  | obj a ms => s.get? a = some (.obj (Branches.cells ms)) ∧ ∀ m ∈ ms, m.2.Standing s
decreasing_by
  · exact sizeOf_lt_list ‹_›
  · exact sizeOf_lt_obj ‹_›

/-- What is said of every leaf. -/
def Leaves (P : Cell → Value → Prop) : Tree → Prop
  | leaf c v => P c v
  | list _ xs => ∀ t ∈ xs, t.Leaves P
  | obj _ ms => ∀ m ∈ ms, m.2.Leaves P
decreasing_by
  · exact sizeOf_lt_list ‹_›
  · exact sizeOf_lt_obj ‹_›

end Tree

namespace Branches

def values (ms : Branches) : Members :=
  ms.map fun m => (m.1, m.2.value)

/-- The addresses of all nodes. -/
def places (ms : Branches) : List Nat :=
  ms.flatMap fun m => m.2.places

end Branches

namespace Tree

/-- A leaf that is a scalar. -/
def IsScalar (c : Cell) (v : Value) : Prop :=
  ∃ x, c = .scalar x ∧ v = x.value

/-- A tree that is unfolded down to its scalars. -/
def Full (t : Tree) : Prop :=
  t.Leaves IsScalar

section

variable (c : Cell) (v : Value) (a : Nat) (xs : List Tree) (ms : List (Text × Tree)) (s : Store)
  (P : Cell → Value → Prop)

@[simp] theorem cell_leaf : (leaf c v).cell = c := rfl

@[simp] theorem cell_list : (list a xs).cell = .ref a := rfl

@[simp] theorem cell_obj : (obj a ms).cell = .ref a := rfl

@[simp] theorem value_leaf : (leaf c v).value = v := by rw [value]

@[simp] theorem value_list : (list a xs).value = .list (xs.map value) := by rw [value]

@[simp] theorem value_obj : (obj a ms).value = .obj (Branches.values ms) := by
  rw [value, Branches.values]

@[simp] theorem places_leaf : (leaf c v).places = [] := by rw [places]

@[simp] theorem places_list : (list a xs).places = a :: xs.flatMap places := by rw [places]

@[simp] theorem places_obj :
    (obj a ms).places = a :: Branches.places ms := by rw [places, Branches.places]

@[simp] theorem standing_leaf : (leaf c v).Standing s := by
  rw [Standing]
  trivial

@[simp] theorem standing_list : (list a xs).Standing s ↔
    s.get? a = some (.list (xs.map cell)) ∧ ∀ t ∈ xs, t.Standing s := by rw [Standing]

@[simp] theorem standing_obj : (obj a ms).Standing s ↔
    s.get? a = some (.obj (Branches.cells ms)) ∧ ∀ m ∈ ms, m.2.Standing s := by rw [Standing]

@[simp] theorem leaves_leaf : (leaf c v).Leaves P ↔ P c v := by rw [Leaves]

@[simp] theorem leaves_list : (list a xs).Leaves P ↔ ∀ t ∈ xs, t.Leaves P := by rw [Leaves]

@[simp] theorem leaves_obj : (obj a ms).Leaves P ↔ ∀ m ∈ ms, m.2.Leaves P := by rw [Leaves]

theorem full_leaf : (leaf c v).Full ↔ IsScalar c v := by rw [Full, leaves_leaf]

theorem full_list : (list a xs).Full ↔ ∀ t ∈ xs, t.Full := by
  rw [Full, leaves_list]
  rfl

theorem full_obj : (obj a ms).Full ↔ ∀ m ∈ ms, m.2.Full := by
  rw [Full, leaves_obj]
  rfl

end

variable {s s' : Store} {t t' : Tree}

theorem Leaves.mono {P Q : Cell → Value → Prop} (h : t.Leaves P) (hPQ : ∀ c v, P c v → Q c v) :
    t.Leaves Q := by
  induction t with
  | leaf c v => exact (leaves_leaf c v Q).mpr (hPQ c v ((leaves_leaf c v P).mp h))
  | list a xs ih =>
    rw [leaves_list] at h ⊢
    exact fun x hx => ih x hx (h x hx)
  | obj a ms ih =>
    rw [leaves_obj] at h ⊢
    exact fun m hm => ih m hm (h m hm)

/-- A tree stands wherever the nodes at its places are the same. -/
theorem Standing.of_agree (h : t.Standing s)
    (hagree : ∀ a n, a ∈ t.places → s.get? a = some n → s'.get? a = some n) : t.Standing s' := by
  induction t with
  | leaf c v => exact standing_leaf c v s'
  | list a xs ih =>
    rw [standing_list] at h ⊢
    rw [places_list] at hagree
    exact ⟨hagree a _ List.mem_cons_self h.1, fun x hx => ih x hx (h.2 x hx) fun b n hb =>
      hagree b n (List.mem_cons_of_mem _ (List.mem_flatMap.mpr ⟨x, hx, hb⟩))⟩
  | obj a ms ih =>
    rw [standing_obj] at h ⊢
    rw [places_obj] at hagree
    exact ⟨hagree a _ List.mem_cons_self h.1, fun m hm => ih m hm (h.2 m hm) fun b n hb =>
      hagree b n (List.mem_cons_of_mem _ (List.mem_flatMap.mpr ⟨m, hm, hb⟩))⟩

theorem Standing.mono (h : t.Standing s) (hext : s.Extends s') : t.Standing s' :=
  h.of_agree fun a n _ => hext a n

/-- A node stands at every place. -/
theorem Standing.lt_size (h : t.Standing s) {a : Nat} (ha : a ∈ t.places) : a < s.size := by
  induction t with
  | leaf c v => simp at ha
  | list b xs ih =>
    rw [standing_list] at h
    rw [places_list, List.mem_cons, List.mem_flatMap] at ha
    obtain rfl | ⟨x, hx, ha⟩ := ha
    · exact Store.lt_size_of_get? h.1
    · exact ih x hx (h.2 x hx) ha
  | obj b ms ih =>
    rw [standing_obj] at h
    rw [places_obj, List.mem_cons, Branches.places, List.mem_flatMap] at ha
    obtain rfl | ⟨m, hm, ha⟩ := ha
    · exact Store.lt_size_of_get? h.1
    · exact ih m hm (h.2 m hm) ha

theorem Full.exists_scalar {c : Cell} {v : Value} (h : (leaf c v).Full) :
    ∃ x, c = .scalar x ∧ v = x.value :=
  (full_leaf c v).mp h

theorem Standing.live (h : t.Standing s) (hfull : t.Full) {a : Nat} (ha : t.cell = .ref a) :
    a ∈ t.places := by
  cases t with
  | leaf c v =>
    obtain ⟨x, rfl, -⟩ := hfull.exists_scalar
    cases ha
  | list b xs =>
    cases ha
    rw [places_list]
    exact List.mem_cons_self
  | obj b ms =>
    cases ha
    rw [places_obj]
    exact List.mem_cons_self

theorem Standing.has (h : t.Standing s) (hfull : t.Full) : s.Has t.cell := by
  cases hc : t.cell with
  | scalar x => trivial
  | ref a => exact h.lt_size (h.live hfull hc)

theorem map_cell_inj {xs ys : List Tree}
    (ih : ∀ t ∈ xs, ∀ t' ∈ ys, t.cell = t'.cell → t = t') (h : xs.map cell = ys.map cell) :
    xs = ys := by
  induction xs generalizing ys with
  | nil => cases ys with
    | nil => rfl
    | cons y ys => cases h
  | cons x xs ihxs => cases ys with
    | nil => cases h
    | cons y ys =>
      rw [List.map_cons, List.map_cons, List.cons.injEq] at h
      rw [ih x List.mem_cons_self y List.mem_cons_self h.1, ihxs (fun t ht t' ht' =>
        ih t (List.mem_cons_of_mem _ ht) t' (List.mem_cons_of_mem _ ht')) h.2]

theorem cells_inj {ms ns : List (Text × Tree)}
    (ih : ∀ m ∈ ms, ∀ n ∈ ns, m.2.cell = n.2.cell → m.2 = n.2)
    (h : Branches.cells ms = Branches.cells ns) :
    ms = ns := by
  induction ms generalizing ns with
  | nil => cases ns with
    | nil => rfl
    | cons n ns => cases h
  | cons m ms ihms => cases ns with
    | nil => cases h
    | cons n ns =>
      rw [Branches.cells, List.map_cons, Branches.cells, List.map_cons, List.cons.injEq,
        Prod.mk.injEq] at h
      have htree := ih m List.mem_cons_self n List.mem_cons_self h.1.2
      rw [Prod.ext h.1.1 htree, ihms (fun m hm n hn =>
        ih m (List.mem_cons_of_mem _ hm) n (List.mem_cons_of_mem _ hn)) h.2]

end Tree

/-- A value stands for a cell that is not looked into: a scalar for itself, and an empty list for a
cell that leads nowhere. -/
inductive Store.Settles (s : Store) : Cell → Value → Prop
  | scalar (x : Scalar) : s.Settles (.scalar x) x.value
  | nowhere {a : Nat} (h : s.get? a = none) : s.Settles (.ref a) (.list [])

theorem Store.Settles.get?_eq_none {s : Store} {a : Nat} {v : Value} (h : s.Settles (.ref a) v) :
    s.get? a = none := by
  cases h with
  | nowhere h => exact h

namespace Tree

variable {s : Store} {t t' : Tree}

theorem Full.settled (h : t.Full) (s : Store) : t.Leaves s.Settles :=
  h.mono fun c v hcv => by
    obtain ⟨x, rfl, rfl⟩ := hcv
    exact .scalar x

/-- There is one way only to unfold a cell. -/
theorem Standing.unique (h : t.Standing s) (hsettled : t.Leaves s.Settles) (h' : t'.Standing s)
    (hsettled' : t'.Leaves s.Settles) (hcell : t.cell = t'.cell) : t = t' := by
  induction t generalizing t' with
  | leaf c v =>
    rw [leaves_leaf] at hsettled
    cases t' with
    | leaf c' v' =>
      rw [leaves_leaf] at hsettled'
      cases hcell
      cases hsettled with
      | scalar x =>
        cases x <;> cases hsettled' <;> rfl
      | nowhere =>
        cases hsettled'
        rfl
    | list a xs =>
      cases hcell
      rw [standing_list, hsettled.get?_eq_none] at h'
      cases h'.1
    | obj a ms =>
      cases hcell
      rw [standing_obj, hsettled.get?_eq_none] at h'
      cases h'.1
  | list a xs ih =>
    rw [standing_list] at h
    rw [leaves_list] at hsettled
    cases t' with
    | leaf c v =>
      cases hcell
      rw [leaves_leaf] at hsettled'
      rw [hsettled'.get?_eq_none] at h
      cases h.1
    | list b ys =>
      cases hcell
      rw [standing_list] at h'
      rw [leaves_list] at hsettled'
      have hcells : xs.map cell = ys.map cell := by simpa [h.1] using h'.1
      rw [map_cell_inj (fun x hx y hy => ih x hx (h.2 x hx) (hsettled x hx) (h'.2 y hy)
        (hsettled' y hy)) hcells]
    | obj b ms =>
      cases hcell
      rw [standing_obj, h.1] at h'
      simp at h'
  | obj a ms ih =>
    rw [standing_obj] at h
    rw [leaves_obj] at hsettled
    cases t' with
    | leaf c v =>
      cases hcell
      rw [leaves_leaf] at hsettled'
      rw [hsettled'.get?_eq_none] at h
      cases h.1
    | list b ys =>
      cases hcell
      rw [standing_list, h.1] at h'
      simp at h'
    | obj b ns =>
      cases hcell
      rw [standing_obj] at h'
      rw [leaves_obj] at hsettled'
      have hcells : Branches.cells ms = Branches.cells ns := by simpa [h.1] using h'.1
      rw [cells_inj (fun m hm n hn => ih m hm (h.2 m hm) (hsettled m hm) (h'.2 n hn)
        (hsettled' n hn)) hcells]

end Tree

/-! ### Members -/

namespace Branches

theorem get?_cells (ms : Branches) (key : Text) :
    Keyed.get? ms.cells key = (Keyed.get? ms key).map Tree.cell := by
  induction ms with
  | nil => rfl
  | cons m ms ih =>
    rw [cells, List.map_cons, Keyed.get?, Keyed.get?]
    split
    · rfl
    · exact ih

theorem get?_values (ms : Branches) (key : Text) :
    Keyed.get? ms.values key = (Keyed.get? ms key).map Tree.value := by
  induction ms with
  | nil => rfl
  | cons m ms ih =>
    rw [values, List.map_cons, Keyed.get?, Keyed.get?]
    split
    · rfl
    · exact ih

theorem cells_put (ms : Branches) (key : Text) (t : Tree) :
    cells (Keyed.put ms key t) = Keyed.put ms.cells key t.cell := by
  induction ms with
  | nil => rfl
  | cons m ms ih =>
    rw [Keyed.put, cells, cells, List.map_cons, Keyed.put]
    split
    · rfl
    · exact congrArg (_ :: ·) ih

theorem values_put (ms : Branches) (key : Text) (t : Tree) :
    values (Keyed.put ms key t) = Keyed.put ms.values key t.value := by
  induction ms with
  | nil => rfl
  | cons m ms ih =>
    rw [Keyed.put, values, values, List.map_cons, Keyed.put]
    split
    · rfl
    · exact congrArg (_ :: ·) ih

end Branches

namespace Store

/-- What a cell leads to is the whole of a value. -/
def Shows (s : Store) (c : Cell) (v : Value) : Prop :=
  ∃ t : Tree, t.Standing s ∧ t.Full ∧ t.cell = c ∧ t.value = v

theorem Shows.unique {s : Store} {c : Cell} {v w : Value} (h : s.Shows c v) (h' : s.Shows c w) :
    v = w := by
  obtain ⟨t, ht, hfull, rfl, rfl⟩ := h
  obtain ⟨u, hu, hfull', hcell, rfl⟩ := h'
  rw [ht.unique (hfull.settled s) hu (hfull'.settled s) hcell.symm]

theorem shows_scalar (s : Store) (x : Scalar) : s.Shows (.scalar x) x.value :=
  ⟨.leaf (.scalar x) x.value, Tree.standing_leaf _ _ s, (Tree.full_leaf _ _).mpr ⟨x, rfl, rfl⟩, rfl,
    Tree.value_leaf _ _⟩

end Store

/-! ### Loading -/

/-- Some nodes came to a store, at these places. -/
structure Store.Gains (s t : Store) (places : List Nat) : Prop where
  grown : s.Extends t
  nodup : places.Nodup
  new : ∀ a ∈ places, s.size ≤ a

namespace Store.Gains

variable {s t u : Store} {ps qs : List Nat}

theorem nil (s : Store) : s.Gains s [] :=
  ⟨.refl s, .nil, by simp⟩

theorem append (h : s.Gains t ps) (hps : ∀ a ∈ ps, a < t.size) (h' : t.Gains u qs) :
    s.Gains u (ps ++ qs) where
  grown := h.grown.trans h'.grown
  nodup := by
    refine List.nodup_append.mpr ⟨h.nodup, h'.nodup, fun a ha b hb => ?_⟩
    have := hps a ha
    have := h'.new b hb
    omega
  new a ha := by
    rcases List.mem_append.mp ha with ha | ha
    · exact h.new a ha
    · exact Nat.le_trans h.grown.size_le (h'.new a ha)

theorem push (h : s.Gains t ps) (hps : ∀ a ∈ ps, a < t.size) (n : Node) :
    s.Gains (t.push n) (t.size :: ps) where
  grown := h.grown.trans (.push t n)
  nodup := List.nodup_cons.mpr ⟨fun hmem => Nat.lt_irrefl _ (hps _ hmem), h.nodup⟩
  new a ha := by
    rcases List.mem_cons.mp ha with rfl | ha
    · exact h.grown.size_le
    · exact h.new a ha

end Store.Gains

theorem get?_push_self (s : Store) (n : Node) : (s.push n).get? s.size = some n := by
  rw [Store.get?_push, if_pos rfl]

theorem get?_put_self {s : Store} {a : Nat} (n : Node) (ha : a < s.size) :
    (s.put a n).get? a = some n := by
  rw [Store.get?_put, if_pos ⟨rfl, ha⟩]

theorem get?_put_of_ne {s : Store} {a b : Nat} (n : Node) (h : a ≠ b) :
    (s.put a n).get? b = s.get? b := by
  rw [Store.get?_put, if_neg fun e => h e.1]

mutual

/-- A value that is loaded becomes a tree that shares no node with anything. -/
theorem exists_tree_load : (v : Value) → (s : Store) →
    ∃ t : Tree, t.Standing (load v s).2 ∧ t.Full ∧ t.cell = (load v s).1 ∧ t.value = v ∧
      s.Gains (load v s).2 t.places
  | .null, s => exists_tree_scalar .null s
  | .bool b, s => exists_tree_scalar (.bool b) s
  | .int n, s => exists_tree_scalar (.int n) s
  | .double x, s => exists_tree_scalar (.double x) s
  | .str x, s => exists_tree_scalar (.str x) s
  | .list xs, s => by
    obtain ⟨ts, hstand, hfull, hcells, hvalues, hgains⟩ := exists_trees_loadElements xs s
    have hlt : ∀ a ∈ ts.flatMap Tree.places, a < (loadElements xs s).2.size := fun a ha =>
      let ⟨t, ht, ha⟩ := List.mem_flatMap.mp ha
      (hstand t ht).lt_size ha
    refine ⟨.list (loadElements xs s).2.size ts, ?_, (Tree.full_list _ _).mpr hfull, rfl, ?_, ?_⟩
    · rw [Tree.standing_list, load]
      exact ⟨by rw [get?_push_self, hcells], fun t ht => (hstand t ht).mono (.push _ _)⟩
    · rw [Tree.value_list, hvalues]
    · rw [Tree.places_list, load]
      exact hgains.push hlt _
  | .obj ms, s => by
    obtain ⟨ts, hstand, hfull, hcells, hvalues, hgains⟩ := exists_trees_loadMembers ms s
    have hlt : ∀ a ∈ ts.places, a < (loadMembers ms s).2.size :=
      fun a ha =>
        let ⟨t, ht, ha⟩ := List.mem_flatMap.mp ha
        (hstand t ht).lt_size ha
    refine ⟨.obj (loadMembers ms s).2.size ts, ?_, (Tree.full_obj _ _).mpr hfull, rfl, ?_, ?_⟩
    · rw [Tree.standing_obj, load]
      exact ⟨by rw [get?_push_self, hcells], fun t ht => (hstand t ht).mono (.push _ _)⟩
    · rw [Tree.value_obj, hvalues]
    · rw [Tree.places_obj, load]
      exact hgains.push hlt _

theorem exists_tree_scalar (x : Scalar) (s : Store) :
    ∃ t : Tree, t.Standing s ∧ t.Full ∧ t.cell = .scalar x ∧ t.value = x.value ∧
      s.Gains s t.places :=
  ⟨.leaf (.scalar x) x.value, Tree.standing_leaf _ _ s, (Tree.full_leaf _ _).mpr ⟨x, rfl, rfl⟩, rfl,
    Tree.value_leaf _ _, by rw [Tree.places_leaf]; exact .nil s⟩

theorem exists_trees_loadElements : (xs : List Value) → (s : Store) →
    ∃ ts : List Tree, (∀ t ∈ ts, t.Standing (loadElements xs s).2) ∧ (∀ t ∈ ts, t.Full) ∧
      ts.map Tree.cell = (loadElements xs s).1 ∧ ts.map Tree.value = xs ∧
      s.Gains (loadElements xs s).2 (ts.flatMap Tree.places)
  | [], s => ⟨[], by simp, by simp, rfl, rfl, .nil s⟩
  | x :: xs, s => by
    obtain ⟨t, ht, hfull, hcell, hvalue, hgains⟩ := exists_tree_load x s
    obtain ⟨ts, hts, hfulls, hcells, hvalues, hgains'⟩ := exists_trees_loadElements xs (load x s).2
    refine ⟨t :: ts, ?_, ?_, ?_, ?_, ?_⟩
    · exact List.forall_mem_cons.mpr ⟨ht.mono hgains'.grown, hts⟩
    · exact List.forall_mem_cons.mpr ⟨hfull, hfulls⟩
    · rw [List.map_cons, hcell, hcells, loadElements]
    · rw [List.map_cons, hvalue, hvalues]
    · rw [List.flatMap_cons, loadElements]
      exact hgains.append (fun a ha => ht.lt_size ha) hgains'

theorem exists_trees_loadMembers : (ms : List (Text × Value)) → (s : Store) →
    ∃ ts : Branches, (∀ m ∈ ts, m.2.Standing (loadMembers ms s).2) ∧
      (∀ m ∈ ts, m.2.Full) ∧ Branches.cells ts = (loadMembers ms s).1 ∧ Branches.values ts = ms ∧
      s.Gains (loadMembers ms s).2 (Branches.places ts)
  | [], s => ⟨[], by simp, by simp, rfl, rfl, .nil s⟩
  | (k, v) :: ms, s => by
    obtain ⟨t, ht, hfull, hcell, hvalue, hgains⟩ := exists_tree_load v s
    obtain ⟨ts, hts, hfulls, hcells, hvalues, hgains'⟩ := exists_trees_loadMembers ms (load v s).2
    refine ⟨(k, t) :: ts, ?_, ?_, ?_, ?_, ?_⟩
    · exact List.forall_mem_cons.mpr ⟨ht.mono hgains'.grown, hts⟩
    · exact List.forall_mem_cons.mpr ⟨hfull, hfulls⟩
    · rw [Branches.cells, List.map_cons, ← Branches.cells, hcell, hcells, loadMembers]
    · rw [Branches.values, List.map_cons, ← Branches.values, hvalue, hvalues]
    · rw [Branches.places, List.flatMap_cons, ← Branches.places, loadMembers]
      exact hgains.append (fun a ha => ht.lt_size ha) hgains'

end

theorem extends_load (v : Value) (s : Store) : s.Extends (load v s).2 :=
  let ⟨_, _, _, _, _, hgains⟩ := exists_tree_load v s
  hgains.grown

theorem shows_load (v : Value) (s : Store) : (load v s).2.Shows (load v s).1 v :=
  let ⟨t, ht, hfull, hcell, hvalue, _⟩ := exists_tree_load v s
  ⟨t, ht, hfull, hcell, hvalue⟩

end Reshape

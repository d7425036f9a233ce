import Reshape.Proofs.Store.Copying
import Reshape.Proofs.Store.Planting

/-!
# Seeds

Two ways to write a tree. Written as a whole (`Seed.frozen`) it is a leaf of what it is written
into, which nothing is written into later; where all leaves show their values the whole does
(`Tree.shows_of_leaves`). Written with its nodes (`Seed.living`) it becomes a part that later writes
can enter. Either is written beside other nodes (`Seed.Suits`) if it leads to none of them, and
is entered only at nodes of its own.
-/

namespace Reshape

namespace Tree

/-- The elements of a tree that is a list. -/
def elements? : Tree → Option (List Tree)
  | list _ xs => some xs
  | _ => none

variable {s : Store} {t : Tree} {xs : List Tree}

theorem value_of_elements? (h : t.elements? = some xs) : t.value = .list (xs.map value) := by
  cases t <;> cases h
  exact value_list _ _

theorem value_ne_list (h : t.elements? = none) (hfull : t.Full) (vs : List Value) :
    t.value ≠ .list vs := by
  cases t with
  | leaf c v =>
    obtain ⟨x, -, rfl⟩ := hfull.exists_scalar
    rw [value_leaf]
    cases x <;> nofun
  | list a xs => cases h
  | obj a ms =>
    rw [value_obj]
    nofun

theorem Standing.elements? (h : t.Standing s) (hfull : t.Full) :
    s.elements? t.cell = t.elements?.map (List.map cell) := by
  cases t with
  | leaf c v =>
    obtain ⟨x, rfl, -⟩ := hfull.exists_scalar
    rfl
  | list a xs =>
    rw [standing_list] at h
    simp [Store.elements?, h.1, Tree.elements?]
  | obj a ms =>
    rw [standing_obj] at h
    simp [Store.elements?, h.1, Tree.elements?]

end Tree

namespace Seed

/-- A tree that is written as a whole: nothing in it is entered. -/
def frozen (t : Tree) : Seed where
  tree := .leaf t.cell t.value
  elements := t.elements?.map (List.map fun x => .leaf x.cell x.value)

variable {s : Store} {t : Tree}

theorem places_frozen {ys : List Tree} (hys : (frozen t).elements = some ys) :
    ys.flatMap Tree.places = [] := by
  obtain ⟨xs, -, rfl⟩ := Option.map_eq_some_iff.mp hys
  rw [List.flatMap_map]
  exact List.flatMap_eq_nil_iff.mpr fun x _ => Tree.places_leaf _ _

theorem sound_frozen (hfull : t.Full) : (frozen t).Sound where
  nodup := by
    rw [frozen, Tree.places_leaf]
    exact .nil
  nodup_elements hys := by
    rw [places_frozen hys]
    exact .nil
  within hys a ha := by
    rw [places_frozen hys] at ha
    cases ha
  value {ys} hys := by
    obtain ⟨xs, hxs, rfl⟩ := Option.map_eq_some_iff.mp hys
    rw [frozen, Tree.value_leaf, Tree.value_of_elements? hxs, List.map_map]
    exact congrArg Value.list (List.map_congr_left fun x _ => (Tree.value_leaf _ _).symm)
  not_list hys := by
    rw [frozen, Tree.value_leaf]
    exact Tree.value_ne_list (Option.map_eq_none_iff.mp hys) hfull

theorem rooted_frozen (h : t.Standing s) (hfull : t.Full) : (frozen t).Rooted s where
  standing := Tree.standing_leaf _ _ s
  live ha := h.lt_size (h.live hfull ha)
  elements := by
    rw [frozen, Tree.cell_leaf, h.elements? hfull, Option.map_map]
    refine congrArg (Option.map · _) (funext fun xs => ?_)
    rw [Function.comp_apply, List.map_map]
    rfl
  parts hys y hy := by
    obtain ⟨xs, -, rfl⟩ := Option.map_eq_some_iff.mp hys
    obtain ⟨x, -, rfl⟩ := List.mem_map.mp hy
    exact Tree.standing_leaf _ _ s
  within hys y hy a ha := by
    have hmem := List.mem_flatMap.mpr ⟨y, hy, ha⟩
    rw [places_frozen hys] at hmem
    cases hmem

/-- A scalar has nothing in it that could be entered. -/
theorem full_frozen (hfull : t.Full) (h : ∀ a, t.cell ≠ .ref a) : (frozen t).Full := by
  cases t with
  | leaf c v =>
    obtain ⟨x, rfl, rfl⟩ := hfull.exists_scalar
    exact ⟨(Tree.full_leaf _ _).mpr ⟨x, rfl, Tree.value_leaf _ _⟩, fun hys => by cases hys⟩
  | list a xs => exact (h a rfl).elim
  | obj a ms => exact (h a rfl).elim

/-- A tree that is written with its nodes. -/
def living (t : Tree) : Seed where
  tree := t
  elements := t.elements?

theorem sound_living (hfull : t.Full) (hnodup : t.places.Nodup) : (living t).Sound where
  nodup := hnodup
  nodup_elements {ys} hys := by
    cases t <;> cases hys
    rw [Tree.places_list] at hnodup
    exact (List.nodup_cons.mp hnodup).2
  within {ys} hys a ha := by
    cases t <;> cases hys
    rw [living, Tree.places_list]
    exact List.mem_cons_of_mem _ ha
  value hys := Tree.value_of_elements? hys
  not_list hys := Tree.value_ne_list hys hfull

theorem rooted_living (h : t.Standing s) (hfull : t.Full) : (living t).Rooted s where
  standing := h
  live ha := h.lt_size (h.live hfull ha)
  elements := h.elements? hfull
  parts {ys} hys y hy := by
    cases t <;> cases hys
    exact ((Tree.standing_list _ _ s).mp h).2 y hy
  within {ys} hys y hy a ha := by
    cases t <;> cases hys
    rw [living, Tree.places_list]
    exact List.mem_cons_of_mem _ (List.mem_flatMap.mpr ⟨y, hy, ha⟩)

theorem full_living (hfull : t.Full) : (living t).Full where
  tree := hfull
  elements {ys} hys := by
    cases t <;> cases hys
    exact (Tree.full_list _ _).mp hfull

end Seed

/-! ### Beside other nodes -/

/-- A cell shows a value, and none of these nodes is in it. -/
def Store.ShowsApart (s : Store) (avoid : List Nat) (c : Cell) (v : Value) : Prop :=
  ∃ t : Tree, t.Standing s ∧ t.Full ∧ t.cell = c ∧ t.value = v ∧ ∀ a ∈ t.places, a ∉ avoid

/-- The nodes of a seed are new since `s`, and nothing that it leads to is among those that are to
be avoided. Its leaves avoid its own nodes as well. -/
structure Seed.Suits (s t : Store) (avoid : List Nat) (x : Seed) : Prop where
  sound : x.Sound
  rooted : x.Rooted t
  apart : ∀ a, x.Needs a → a ∉ avoid
  new : ∀ a ∈ x.tree.places, s.size ≤ a
  leaves : x.tree.Leaves (t.ShowsApart (avoid ++ x.tree.places))
  parts : ∀ {ys}, x.elements = some ys →
    ∀ y ∈ ys, y.Leaves (t.ShowsApart (avoid ++ x.tree.places))

namespace Seed

variable {s t : Store} {avoid : List Nat} {u : Tree}

theorem suits_frozen (s : Store) (hu : u.Standing t) (hfull : u.Full)
    (hout : ∀ a ∈ u.places, a ∉ avoid) : (frozen u).Suits s t avoid := by
  have hnone : (frozen u).tree.places = [] := Tree.places_leaf _ _
  refine ⟨sound_frozen hfull, rooted_frozen hu hfull, ?_, ?_, ?_, fun hys y hy => ?_⟩
  · rintro a (ha | ha)
    · exact hout a (hu.live hfull ha)
    · rw [hnone] at ha
      cases ha
  · rw [hnone]
    exact fun _ ha => nomatch ha
  · rw [hnone, List.append_nil, frozen, Tree.leaves_leaf]
    exact ⟨u, hu, hfull, rfl, rfl, hout⟩
  · obtain ⟨xs, hxs, rfl⟩ := Option.map_eq_some_iff.mp hys
    obtain ⟨w, hw, rfl⟩ := List.mem_map.mp hy
    rw [hnone, List.append_nil, Tree.leaves_leaf]
    cases u <;> cases hxs
    refine ⟨w, ((Tree.standing_list _ _ t).mp hu).2 w hw, (Tree.full_list _ _).mp hfull w hw, rfl,
      rfl, fun a ha => hout a ?_⟩
    rw [Tree.places_list]
    exact List.mem_cons_of_mem _ (List.mem_flatMap.mpr ⟨w, hw, ha⟩)

theorem suits_living (hu : u.Standing t) (hfull : u.Full) (hnodup : u.places.Nodup)
    (hnew : ∀ a ∈ u.places, s.size ≤ a) (havoid : ∀ a ∈ avoid, a < s.size) :
    (living u).Suits s t avoid := by
  have hscalars : ∀ {w : Tree}, w.Full → w.Leaves (t.ShowsApart (avoid ++ u.places)) :=
    fun hw => hw.mono fun c v ⟨x, hc, hv⟩ => ⟨.leaf (.scalar x) x.value, Tree.standing_leaf _ _ t,
      (Tree.full_leaf _ _).mpr ⟨x, rfl, rfl⟩, hc.symm, (Tree.value_leaf _ _).trans hv.symm,
      fun a ha => by simp at ha⟩
  exact ⟨sound_living hfull hnodup, rooted_living hu hfull,
    fun a ha hmem => Nat.not_le.mpr (havoid a hmem) (hnew a (ha.elim (hu.live hfull) id)), hnew,
    hscalars hfull, fun hys y hy => hscalars ((full_living hfull).elements hys y hy)⟩

end Seed

namespace Tree

/-- Where all leaves show their values, the whole tree does. -/
theorem shows_of_leaves {s : Store} {t : Tree} (h : t.Standing s) (hleaves : t.Leaves s.Shows) :
    s.Shows t.cell t.value := by
  induction t with
  | leaf c v =>
    rw [leaves_leaf] at hleaves
    rw [cell_leaf, value_leaf]
    exact hleaves
  | list a xs ih =>
    rw [standing_list] at h
    rw [leaves_list] at hleaves
    obtain ⟨us, hcells, hus⟩ := exists_trees (R := Eq)
      (P := fun x u => u.Standing s ∧ u.Full ∧ u.value = x.value)
      (fun x hx d hd => by
        obtain ⟨u, hu, hfull, hcell, hvalue⟩ := ih x hx (h.2 x hx) (hleaves x hx)
        exact ⟨u, hcell.trans hd, hu, hfull, hvalue⟩)
      (List.forall₂_same.mpr fun _ _ => rfl)
    refine ⟨.list a us, ?_, ?_, rfl, ?_⟩
    · rw [standing_list, hcells]
      exact ⟨h.1, fun u hu => let ⟨_, _, hxu⟩ := exists_of_mem_right hus hu; hxu.1⟩
    · rw [full_list]
      exact fun u hu => let ⟨_, _, hxu⟩ := exists_of_mem_right hus hu; hxu.2.1
    · rw [value_list, value_list, map_eq_of_forall₂ (fun _ _ hxu => hxu.2.2) hus]
  | obj a ms ih =>
    rw [standing_obj] at h
    rw [leaves_obj] at hleaves
    obtain ⟨us, hcells, hus⟩ := exists_branches (R := Eq)
      (P := fun x u => u.Standing s ∧ u.Full ∧ u.value = x.value)
      (fun m hm d hd => by
        obtain ⟨u, hu, hfull, hcell, hvalue⟩ := ih m hm (h.2 m hm) (hleaves m hm)
        exact ⟨u, hcell.trans hd, hu, hfull, hvalue⟩)
      (List.forall₂_same.mpr fun _ _ => ⟨rfl, rfl⟩ : Keyed.Rel Eq (Branches.cells ms) _)
    refine ⟨.obj a us, ?_, ?_, rfl, ?_⟩
    · rw [standing_obj, hcells]
      exact ⟨h.1, fun u hu => let ⟨_, _, hxu⟩ := exists_of_mem_right hus hu; hxu.2.1⟩
    · rw [full_obj]
      exact fun u hu => let ⟨_, _, hxu⟩ := exists_of_mem_right hus hu; hxu.2.2.1
    · rw [value_obj, value_obj, Branches.values, Branches.values,
        map_eq_of_forall₂ (f := fun m : Text × Tree => (m.1, m.2.value))
          (fun m u hmu => by rw [hmu.1, hmu.2.2.2]) hus]

end Tree

end Reshape

import Mathlib.Data.List.Nodup
import Reshape.Proofs.Keyed
import Reshape.Proofs.Store.Coupling

/-!
# Copies

What a copy shows and when there is room for it. Copying only adds nodes (`copyWithin_extends`). The
nodes that were copied correspond to their copies, so that a copy shows the same value
(`exists_tree_copyWithin`), also where parts of it are shared. A tree that shares nothing is copied
exactly if there is room for its value (`isSome_copyWithin_iff`).
-/

namespace Reshape

/-! ### Trees under a coupling -/

theorem exists_of_mem_right {α β : Type} {P : α → β → Prop} {xs : List α} {ys : List β}
    (h : List.Forall₂ P xs ys) {y : β} (hy : y ∈ ys) : ∃ x ∈ xs, P x y := by
  induction h with
  | nil => cases hy
  | cons hab _ ih =>
    rcases List.mem_cons.mp hy with rfl | hy
    · exact ⟨_, List.mem_cons_self, hab⟩
    · obtain ⟨x, hx, hxy⟩ := ih hy
      exact ⟨x, List.mem_cons_of_mem _ hx, hxy⟩

theorem map_eq_of_forall₂ {α β γ : Type} {P : α → β → Prop} {f : α → γ} {g : β → γ}
    (hfg : ∀ a b, P a b → g b = f a) {xs : List α} {ys : List β} (h : List.Forall₂ P xs ys) :
    ys.map g = xs.map f := by
  induction h with
  | nil => rfl
  | cons hab _ ih => rw [List.map_cons, List.map_cons, hfg _ _ hab, ih]

namespace Tree

variable {s s' : Store} {P : Tree → Tree → Prop} {R : Cell → Cell → Prop}

theorem exists_trees {xs : List Tree} {ds : List Cell}
    (ih : ∀ x ∈ xs, ∀ d, R x.cell d → ∃ u, u.cell = d ∧ P x u)
    (h : List.Forall₂ R (xs.map cell) ds) :
    ∃ us : List Tree, us.map cell = ds ∧ List.Forall₂ P xs us := by
  induction xs generalizing ds with
  | nil =>
    cases h
    exact ⟨[], rfl, .nil⟩
  | cons x xs ihxs =>
    rw [List.forall_mem_cons] at ih
    cases h with
    | cons hd hrest =>
      obtain ⟨u, rfl, hu⟩ := ih.1 _ hd
      obtain ⟨us, rfl, hus⟩ := ihxs ih.2 hrest
      exact ⟨u :: us, rfl, .cons hu hus⟩

theorem exists_branches {ms : Branches} {ns : Keyed Text Cell}
    (ih : ∀ m ∈ ms, ∀ d, R m.2.cell d → ∃ u, u.cell = d ∧ P m.2 u)
    (h : Keyed.Rel R ms.cells ns) :
    ∃ us : Branches, us.cells = ns ∧ Keyed.Rel P ms us := by
  induction ms generalizing ns with
  | nil =>
    cases h
    exact ⟨[], rfl, .nil⟩
  | cons m ms ihms =>
    rw [List.forall_mem_cons] at ih
    rw [Branches.cells, List.map_cons] at h
    cases h with
    | @cons _ n _ _ hd hrest =>
      obtain ⟨k, d⟩ := n
      obtain ⟨rfl, hd⟩ := hd
      obtain ⟨u, rfl, hu⟩ := ih.1 _ hd
      obtain ⟨us, rfl, hus⟩ := ihms ih.2 hrest
      exact ⟨(m.1, u) :: us, rfl, .cons ⟨rfl, hu⟩ hus⟩

/-- What is said of a tree that stands in another store for this one, at corresponding places. -/
structure Twin (s' : Store) (rel : Nat → Nat → Prop) (t u : Tree) : Prop where
  standing : u.Standing s'
  full : u.Full
  value : u.value = t.value
  places : List.Forall₂ rel t.places u.places

/-- A tree stands in a coupled store too, at corresponding places. -/
theorem exists_twin (C : Coupling s s') {t : Tree} (h : t.Standing s) (hfull : t.Full) {d : Cell}
    (hd : Cell.Rel C.rel t.cell d) : ∃ u : Tree, u.cell = d ∧ Twin s' C.rel t u := by
  induction t generalizing d with
  | leaf c v =>
    obtain ⟨x, rfl, rfl⟩ := hfull.exists_scalar
    cases hd
    refine ⟨_, rfl, standing_leaf _ _ s', (full_leaf _ _).mpr ⟨x, rfl, rfl⟩, rfl, ?_⟩
    rw [places_leaf]
    exact .nil
  | list a xs ih =>
    rw [standing_list] at h
    rw [full_list] at hfull
    cases hd with
    | @ref _ b hab =>
      obtain ⟨n, n', hn, hn', hrel⟩ := C.nodes hab
      cases h.1.symm.trans hn
      cases hrel with
      | list hcells =>
        obtain ⟨us, rfl, hus⟩ := exists_trees
          (fun x hx d hd => ih x hx (h.2 x hx) (hfull x hx) hd) hcells
        refine ⟨list b us, rfl, ?_, ?_, ?_, ?_⟩
        · rw [standing_list]
          refine ⟨hn', fun u hu => ?_⟩
          obtain ⟨x, -, hxu⟩ := exists_of_mem_right hus hu
          exact hxu.standing
        · rw [full_list]
          intro u hu
          obtain ⟨x, -, hxu⟩ := exists_of_mem_right hus hu
          exact hxu.full
        · rw [value_list, value_list, map_eq_of_forall₂ (fun _ _ hxu => hxu.value) hus]
        · rw [places_list, places_list]
          exact .cons hab (List.rel_flatMap hus fun _ _ hxu => hxu.places)
  | obj a ms ih =>
    rw [standing_obj] at h
    rw [full_obj] at hfull
    cases hd with
    | @ref _ b hab =>
      obtain ⟨n, n', hn, hn', hrel⟩ := C.nodes hab
      cases h.1.symm.trans hn
      cases hrel with
      | obj hcells =>
        obtain ⟨us, rfl, hus⟩ := exists_branches
          (fun m hm d hd => ih m hm (h.2 m hm) (hfull m hm) hd) hcells
        refine ⟨obj b us, rfl, ?_, ?_, ?_, ?_⟩
        · rw [standing_obj]
          refine ⟨hn', fun u hu => ?_⟩
          obtain ⟨m, -, -, hmu⟩ := exists_of_mem_right hus hu
          exact hmu.standing
        · rw [full_obj]
          intro u hu
          obtain ⟨m, -, -, hmu⟩ := exists_of_mem_right hus hu
          exact hmu.full
        · rw [value_obj, value_obj, Branches.values, Branches.values,
            map_eq_of_forall₂ (f := fun m : Text × Tree => (m.1, m.2.value))
              (fun m u hmu => by rw [hmu.1, hmu.2.value]) hus]
        · rw [places_obj, places_obj]
          exact .cons hab (List.rel_flatMap hus fun _ _ hmu => hmu.2.places)

end Tree

namespace Coupling

variable {s s' : Store}

/-- Corresponding cells show the same. -/
theorem shows (C : Coupling s s') {c d : Cell} {v : Value} (h : s.Shows c v)
    (hcd : Cell.Rel C.rel c d) : s'.Shows d v := by
  obtain ⟨t, ht, hfull, rfl, rfl⟩ := h
  obtain ⟨u, hcell, hu⟩ := Tree.exists_twin C ht hfull hcd
  exact ⟨u, hu.standing, hu.full, hcell, hu.value⟩

end Coupling

/-! ### Copying adds nodes -/

theorem copyEach_extends {copy : Cell → Copier → Option Cell × Copier}
    (hcopy : ∀ (c : Cell) (p : Copier), p.store.Extends (copy c p).2.store) (cs : List Cell)
    (p : Copier) :
    p.store.Extends (copyEach copy cs p).2.store := by
  induction cs generalizing p with
  | nil => exact .refl _
  | cons c cs ih =>
    have hc := hcopy c p
    rw [copyEach]
    generalize copy c p = r at hc
    obtain ⟨d, q⟩ := r
    cases d with
    | none => exact hc
    | some d => exact hc.trans (ih q)

theorem Store.Extends.put {s t : Store} (h : s.Extends t) {a : Nat} (ha : s.size ≤ a) (n : Node) :
    s.Extends (t.put a n) := by
  intro b m hm
  rw [get?_put_of_ne n (Nat.ne_of_gt (Nat.lt_of_lt_of_le (lt_size_of_get? hm) ha))]
  exact h b m hm

/-- Copying leaves all nodes as they are. -/
theorem copyWithin_extends (room : Nat) (c : Cell) (p : Copier) :
    p.store.Extends (copyWithin room c p).2.store := by
  induction room using Nat.twoStepInduction generalizing c p with
  | zero => exact .refl _
  | one => exact .refl _
  | more room ih _ =>
    cases c with
    | scalar x => exact .refl _
    | ref a =>
      rw [copyWithin]
      split
      · exact .refl _
      · exact .refl _
      · next n _ _ =>
        split
        · exact .refl _
        · have hpush := Store.Extends.push p.store (n.withCells [])
          have heach := copyEach_extends ih n.cells
            { memo := (a, p.store.size) :: p.memo, store := p.store.push (n.withCells []) }
          dsimp only
          split
          · next h =>
            rw [h] at heach
            exact hpush.trans heach
          · next h =>
            rw [h] at heach
            exact (hpush.trans heach).put (Nat.le_refl _) _

/-! ### Room -/

/-- A value of which a copy has to be made. -/
def Value.IsContainer (v : Value) : Prop :=
  (∃ xs, v = .list xs) ∨ ∃ ms, v = .obj ms

/-- There is no room to give a value nodes of its own. -/
def Value.TooDeepFor (room : Nat) (v : Value) : Prop :=
  v.IsContainer ∧ room < v.roomToCopy

instance : ∀ v : Value, Decidable v.IsContainer
  | .list xs => .isTrue (.inl ⟨xs, rfl⟩)
  | .obj ms => .isTrue (.inr ⟨ms, rfl⟩)
  | .null | .bool _ | .int _ | .double _ | .str _ =>
    .isFalse fun h => h.elim (fun ⟨_, h⟩ => nomatch h) fun ⟨_, h⟩ => nomatch h

instance (room : Nat) (v : Value) : Decidable (v.TooDeepFor room) :=
  inferInstanceAs (Decidable (_ ∧ _))

theorem roomToCopy_scalar (x : Scalar) : x.value.roomToCopy = 2 := by
  cases x <;> rfl

theorem roomForElements_le_iff (vs : List Value) (room : Nat) :
    Value.roomForElements vs ≤ room ↔ ∀ v ∈ vs, v.roomToCopy ≤ room := by
  induction vs with
  | nil => simp [Value.roomForElements]
  | cons v vs ih => rw [Value.roomForElements, Nat.max_le, ih, List.forall_mem_cons]

theorem roomForMembers_le_iff (ms : Members) (room : Nat) :
    Value.roomForMembers ms ≤ room ↔ ∀ m ∈ ms, m.2.roomToCopy ≤ room := by
  induction ms with
  | nil => simp [Value.roomForMembers]
  | cons m ms ih => rw [Value.roomForMembers, Nat.max_le, ih, List.forall_mem_cons]

/-- A tree is copied exactly if there is room for it, and no node outside of it is taken for copied.
-/
def CopiedIf (places : List Nat) (enough : Prop) {α : Type} (p : Copier)
    (r : Option α × Copier) : Prop :=
  (r.1.isSome ↔ enough) ∧ ∀ a, a ∉ places → Keyed.get? r.2.memo a = Keyed.get? p.memo a

theorem copiedIf_each {room : Nat} {ts : List Tree} (p : Copier)
    (ih : ∀ t ∈ ts, ∀ p : Copier, t.Standing p.store →
      (∀ a ∈ t.places, Keyed.get? p.memo a = none) →
      CopiedIf t.places (t.value.roomToCopy ≤ room) p (copyWithin room t.cell p))
    (hstand : ∀ t ∈ ts, t.Standing p.store) (hnodup : (ts.flatMap Tree.places).Nodup)
    (hmemo : ∀ a ∈ ts.flatMap Tree.places, Keyed.get? p.memo a = none) :
    CopiedIf (ts.flatMap Tree.places) (∀ t ∈ ts, t.value.roomToCopy ≤ room) p
      (copyEach (copyWithin room) (ts.map Tree.cell) p) := by
  induction ts generalizing p with
  | nil => exact ⟨by simp [copyEach], fun _ _ => rfl⟩
  | cons t ts ihts =>
    rw [List.forall_mem_cons] at ih hstand
    rw [List.flatMap_cons] at hnodup hmemo ⊢
    obtain ⟨-, hrest, hapart⟩ := List.nodup_append.mp hnodup
    obtain ⟨hsome, hother⟩ :=
      ih.1 p hstand.1 fun a ha => hmemo a (List.mem_append_left _ ha)
    have hext := copyWithin_extends room t.cell p
    rw [List.map_cons, copyEach]
    generalize copyWithin room t.cell p = r at *
    obtain ⟨d, q⟩ := r
    cases d with
    | none =>
      refine ⟨?_, fun a ha => hother a fun hmem => ha (List.mem_append_left _ hmem)⟩
      rw [List.forall_mem_cons, ← hsome]
      simp
    | some d =>
      obtain ⟨hsome', hother'⟩ := ihts q ih.2 (fun t ht => (hstand.2 t ht).mono hext) hrest
        fun a ha => by
          rw [hother a fun hmem => hapart a hmem a ha rfl]
          exact hmemo a (List.mem_append_right _ ha)
      refine ⟨?_, fun a ha => ?_⟩
      · rw [List.forall_mem_cons, ← hsome, ← hsome']
        simp
      · rw [hother' a fun hmem => ha (List.mem_append_right _ hmem),
          hother a fun hmem => ha (List.mem_append_left _ hmem)]

/-- What is done once a node is found that was not copied: its parts are copied. -/
theorem copiedIf_node {room a : Nat} {node : Node} {ts : List Tree} {enough : Prop} (p : Copier)
    (hget : p.store.get? a = some node) (hcells : node.cells = ts.map Tree.cell)
    (ih : ∀ t ∈ ts, ∀ p : Copier, t.Standing p.store →
      (∀ a ∈ t.places, Keyed.get? p.memo a = none) →
      CopiedIf t.places (t.value.roomToCopy ≤ room) p (copyWithin room t.cell p))
    (hstand : ∀ t ∈ ts, t.Standing p.store) (hnodup : (a :: ts.flatMap Tree.places).Nodup)
    (hmemo : ∀ b ∈ a :: ts.flatMap Tree.places, Keyed.get? p.memo b = none)
    (henough : enough ↔ room ≠ 0 ∧ ∀ t ∈ ts, t.value.roomToCopy ≤ room) :
    CopiedIf (a :: ts.flatMap Tree.places) enough p
      (copyWithin (room + 2) (.ref a) p) := by
  rw [copyWithin, hmemo a List.mem_cons_self, hget]
  dsimp only
  by_cases hroom : room = 0
  · rw [if_pos hroom]
    exact ⟨by rw [henough]; simp [hroom], fun _ _ => rfl⟩
  · rw [if_neg hroom]
    obtain ⟨hanot, hparts⟩ := List.nodup_cons.mp hnodup
    obtain ⟨hsome, hother⟩ := copiedIf_each
      { memo := (a, p.store.size) :: p.memo, store := p.store.push (node.withCells []) } ih
      (fun t ht => (hstand t ht).mono (.push _ _)) hparts fun b hb => by
        rw [Keyed.get?, if_neg fun e : a = b => hanot (e ▸ hb)]
        exact hmemo b (List.mem_cons_of_mem _ hb)
    rw [← hcells] at hsome hother
    have hother' : ∀ b, b ∉ a :: ts.flatMap Tree.places →
        Keyed.get? ((a, p.store.size) :: p.memo) b = Keyed.get? p.memo b := fun b hb => by
      rw [Keyed.get?, if_neg fun e : a = b => hb (e ▸ List.mem_cons_self)]
    generalize copyEach (copyWithin room) node.cells _ = r at *
    obtain ⟨ds, q⟩ := r
    have hmemo' : ∀ b, b ∉ a :: ts.flatMap Tree.places →
        Keyed.get? q.memo b = Keyed.get? p.memo b := fun b hb =>
      (hother b fun hmem => hb (List.mem_cons_of_mem _ hmem)).trans (hother' b hb)
    cases ds with
    | none => exact ⟨by rw [henough, ← hsome]; simp, hmemo'⟩
    | some ds => exact ⟨by rw [henough, ← hsome]; simp [hroom], hmemo'⟩

theorem copiedIf_short {room a : Nat} {places : List Nat} {enough : Prop} (p : Copier)
    (hroom : room < 2) (henough : ¬ enough) :
    CopiedIf places enough p (copyWithin room (.ref a) p) := by
  obtain rfl | rfl : room = 0 ∨ room = 1 := by omega
  all_goals exact ⟨by simp [copyWithin, henough], fun _ _ => rfl⟩

/-- A tree that leads to no node twice is copied exactly if there is room for its value. -/
theorem copiedIf_tree {t : Tree} (hfull : t.Full) (hnodup : t.places.Nodup) (room : Nat)
    (p : Copier)
    (hstand : t.Standing p.store) (hmemo : ∀ a ∈ t.places, Keyed.get? p.memo a = none) :
    CopiedIf t.places (t.value.roomToCopy ≤ room) p (copyWithin room t.cell p) := by
  induction t generalizing room p with
  | leaf c v =>
    obtain ⟨x, rfl, rfl⟩ := hfull.exists_scalar
    rw [Tree.value_leaf, roomToCopy_scalar]
    match room with
    | 0 | 1 => exact ⟨by simp [copyWithin], fun _ _ => rfl⟩
    | room + 2 => exact ⟨by simp [copyWithin], fun _ _ => rfl⟩
  | list a xs ih =>
    rw [Tree.full_list] at hfull
    rw [Tree.places_list] at hnodup hmemo ⊢
    rw [Tree.standing_list] at hstand
    rw [Tree.value_list, Tree.cell_list, Value.roomToCopy]
    by_cases hroom : room < 2
    · exact copiedIf_short p hroom (by omega)
    obtain ⟨room, rfl⟩ : ∃ n, room = n + 2 := ⟨room - 2, by omega⟩
    refine copiedIf_node p hstand.1 rfl (fun t ht p hst hm => ih t ht (hfull t ht) ?_ room p hst hm)
      hstand.2 hnodup hmemo ?_
    · exact (List.nodup_cons.mp hnodup).2.sublist
        (List.sublist_flatten_of_mem (List.mem_map.mpr ⟨t, ht, rfl⟩))
    · have hiff := roomForElements_le_iff (xs.map Tree.value) room
      rw [List.forall_mem_map] at hiff
      rw [← hiff]
      omega
  | obj a ms ih =>
    rw [Tree.full_obj] at hfull
    rw [Tree.places_obj] at hnodup hmemo ⊢
    rw [Tree.standing_obj] at hstand
    rw [Tree.value_obj, Tree.cell_obj, Value.roomToCopy]
    have hplaces : Branches.places ms = (ms.map Prod.snd).flatMap Tree.places := by
      rw [Branches.places, List.flatMap_map]
    rw [hplaces] at hnodup hmemo ⊢
    by_cases hroom : room < 2
    · exact copiedIf_short p hroom (by omega)
    obtain ⟨room, rfl⟩ : ∃ n, room = n + 2 := ⟨room - 2, by omega⟩
    refine copiedIf_node p hstand.1 (by simp [Node.cells, Branches.cells])
      (List.forall_mem_map.mpr fun m hm p hst hmm => ih m hm (hfull m hm) ?_ room p hst hmm)
      (List.forall_mem_map.mpr hstand.2) hnodup hmemo ?_
    · refine (List.nodup_cons.mp hnodup).2.sublist (List.sublist_flatten_of_mem ?_)
      exact List.mem_map.mpr ⟨m.2, List.mem_map.mpr ⟨m, hm, rfl⟩, rfl⟩
    · have hiff := roomForMembers_le_iff (Branches.values ms) room
      rw [Branches.values, List.forall_mem_map] at hiff
      rw [List.forall_mem_map, ← hiff, Branches.values]
      omega

/-! ### What a copy shows -/

theorem Tree.exists_subtree {s : Store} {t : Tree} (h : t.Standing s) (hfull : t.Full) {a : Nat}
    (ha : a ∈ t.places) :
    ∃ u : Tree, u.Standing s ∧ u.Full ∧ u.cell = .ref a ∧ sizeOf u ≤ sizeOf t := by
  induction t with
  | leaf c v => simp at ha
  | list b xs ih =>
    rw [places_list, List.mem_cons, List.mem_flatMap] at ha
    rcases ha with rfl | ⟨x, hx, ha⟩
    · exact ⟨list a xs, h, hfull, rfl, Nat.le_refl _⟩
    · obtain ⟨u, hu, hufull, hcell, hsize⟩ := ih x hx (((standing_list _ _ s).mp h).2 x hx)
        ((full_list _ _).mp hfull x hx) ha
      exact ⟨u, hu, hufull, hcell, Nat.le_trans hsize (Nat.le_of_lt (sizeOf_lt_list hx))⟩
  | obj b ms ih =>
    rw [places_obj, List.mem_cons, Branches.places, List.mem_flatMap] at ha
    rcases ha with rfl | ⟨m, hm, ha⟩
    · exact ⟨obj a ms, h, hfull, rfl, Nat.le_refl _⟩
    · obtain ⟨u, hu, hufull, hcell, hsize⟩ := ih m hm (((standing_obj _ _ s).mp h).2 m hm)
        ((full_obj _ _).mp hfull m hm) ha
      exact ⟨u, hu, hufull, hcell, Nat.le_trans hsize (Nat.le_of_lt (sizeOf_lt_obj hm))⟩

/-- No tree leads back to its own node. -/
theorem Tree.not_mem_places_of_lt {s : Store} {t u : Tree} {a : Nat} (ht : t.Standing s)
    (hfull : t.Full) (hcell : t.cell = .ref a) (hu : u.Standing s) (hufull : u.Full)
    (hlt : sizeOf u < sizeOf t) : a ∉ u.places := by
  intro ha
  obtain ⟨w, hw, hwfull, hwcell, hsize⟩ := Tree.exists_subtree hu hufull ha
  rw [ht.unique (hfull.settled s) hw (hwfull.settled s) (hcell.trans hwcell.symm)] at hlt
  omega

namespace Copier

/-- Which nodes were copied to which. -/
def Copied (p : Copier) (a b : Nat) : Prop :=
  (a, b) ∈ p.memo

/-- The nodes of a store correspond to their copies, except those that are just being copied. -/
structure Faithful (s : Store) (working : List Nat) (p : Copier) : Prop where
  grown : s.Extends p.store
  fresh : ∀ {a b}, p.Copied a b → s.size ≤ b ∧ b < p.store.size
  left_unique : ∀ {a b c}, p.Copied a b → p.Copied a c → b = c
  right_unique : ∀ {a b c}, p.Copied a c → p.Copied b c → a = b
  nodes : ∀ {a b}, p.Copied a b → a ∉ working →
    ∃ n n', s.get? a = some n ∧ p.store.get? b = some n' ∧ Node.Rel p.Copied n n'

theorem faithful_start (s : Store) : Faithful s [] { store := s } where
  grown := .refl s
  fresh h := by cases h
  left_unique h := by cases h
  right_unique h := by cases h
  nodes h := by cases h

end Copier

open Copier (Faithful)

/-- What copying a tree comes to, if it comes to anything. -/
def CopiesWell {α : Type} (s : Store) (working : List Nat) (p : Copier)
    (R : (Nat → Nat → Prop) → α → Prop) (r : Option α × Copier) : Prop :=
  ∀ d q, r = (some d, q) →
    q.Faithful s working ∧ (∀ {a b}, p.Copied a b → q.Copied a b) ∧ R q.Copied d

theorem copiesWell_each {s : Store} {room : Nat} {working : List Nat} {ts : List Tree} {p : Copier}
    (ih : ∀ t ∈ ts, ∀ {p : Copier}, p.Faithful s working →
      CopiesWell s working p (fun R d => Cell.Rel R t.cell d) (copyWithin room t.cell p))
    (hp : p.Faithful s working) :
    CopiesWell s working p (fun R ds => List.Forall₂ (Cell.Rel R) (ts.map Tree.cell) ds)
      (copyEach (copyWithin room) (ts.map Tree.cell) p) := by
  induction ts generalizing p with
  | nil =>
    intro ds q h
    cases h
    exact ⟨hp, id, .nil⟩
  | cons t ts ihts =>
    rw [List.forall_mem_cons] at ih
    intro ds q h
    rw [List.map_cons, copyEach] at h
    have hhead := ih.1 hp
    generalize copyWithin room t.cell p = r at *
    obtain ⟨d, p'⟩ := r
    cases d with
    | none => cases h
    | some d =>
      obtain ⟨hp', hkeep, hd⟩ := hhead d p' rfl
      have hrest := ihts ih.2 hp'
      dsimp only at h
      generalize copyEach (copyWithin room) (ts.map Tree.cell) p' = r at *
      obtain ⟨ds', q'⟩ := r
      cases ds' with
      | none => cases h
      | some ds' =>
        cases h
        obtain ⟨hq, hkeep', hds⟩ := hrest ds' q' rfl
        exact ⟨hq, fun hab => hkeep' (hkeep hab), .cons (hd.mono fun _ _ => hkeep') hds⟩

theorem Node.Rel.withCells_self {R : Nat → Nat → Prop} {n : Node} {cs : List Cell}
    (h : List.Forall₂ (Cell.Rel R) n.cells cs) : Node.Rel R n (n.withCells cs) := by
  cases n with
  | list ds => exact .list h
  | obj ms =>
    refine .obj ?_
    rw [Node.cells] at h
    induction ms generalizing cs with
    | nil => exact .nil
    | cons m ms ih =>
      cases h with
      | cons hc hrest => exact .cons ⟨rfl, hc⟩ (ih hrest)

/-- A node is copied well if its parts are. -/
theorem copiesWell_node {s : Store} {room a : Nat} {working : List Nat} {node : Node}
    {ts : List Tree} {p : Copier} (hget : s.get? a = some node)
    (hcells : node.cells = ts.map Tree.cell) (hwork : a ∉ working)
    (ih : ∀ t ∈ ts, ∀ {p : Copier}, p.Faithful s (a :: working) →
      CopiesWell s (a :: working) p (fun R d => Cell.Rel R t.cell d) (copyWithin room t.cell p))
    (hp : p.Faithful s working) :
    CopiesWell s working p (fun R d => Cell.Rel R (.ref a) d)
      (copyWithin (room + 2) (.ref a) p) := by
  intro d q h
  rw [copyWithin, hp.grown a node hget] at h
  cases hm : Keyed.get? p.memo a with
  | some b =>
    rw [hm] at h
    cases h
    exact ⟨hp, id, .ref (Keyed.mem_of_get? hm)⟩
  | none =>
    rw [hm] at h
    dsimp only at h
    split at h
    · cases h
    have hnew : ∀ {b}, ¬ p.Copied a b := fun hb =>
      Keyed.get?_eq_none_iff.mp hm (List.mem_map.mpr ⟨_, hb, rfl⟩)
    have hsize : s.size ≤ p.store.size := hp.grown.size_le
    -- The node and its copy join the others; the copy is still without parts.
    have hstart : Faithful s (a :: working)
        { memo := (a, p.store.size) :: p.memo, store := p.store.push (node.withCells []) } := by
      have hcases : ∀ {x y}, (x, y) ∈ (a, p.store.size) :: p.memo →
          x = a ∧ y = p.store.size ∨ p.Copied x y := fun hxy => by
        rcases List.mem_cons.mp hxy with e | hxy
        · cases e
          exact .inl ⟨rfl, rfl⟩
        · exact .inr hxy
      refine ⟨hp.grown.trans (.push _ _), fun hab => ?_, fun hab hac => ?_, fun hac hbc => ?_,
        fun hab hwork' => ?_⟩
      · rw [Store.size_push]
        rcases hcases hab with ⟨rfl, rfl⟩ | hab
        · exact ⟨hsize, Nat.lt_succ_self _⟩
        · exact ⟨(hp.fresh hab).1, Nat.lt_succ_of_lt (hp.fresh hab).2⟩
      · rcases hcases hab with ⟨rfl, rfl⟩ | hab <;> rcases hcases hac with ⟨h1, h2⟩ | hac
        · exact h2.symm
        · exact absurd hac hnew
        · exact absurd (h1 ▸ hab) hnew
        · exact hp.left_unique hab hac
      · rcases hcases hac with ⟨rfl, rfl⟩ | hac <;> rcases hcases hbc with ⟨h1, h2⟩ | hbc
        · exact h1.symm
        · exact absurd (hp.fresh hbc).2 (Nat.lt_irrefl _)
        · exact absurd (h2 ▸ (hp.fresh hac).2) (Nat.lt_irrefl _)
        · exact hp.right_unique hac hbc
      · rw [List.mem_cons, not_or] at hwork'
        rcases hcases hab with ⟨rfl, -⟩ | hab
        · exact absurd rfl hwork'.1
        · obtain ⟨n, n', hn, hn', hrel⟩ := hp.nodes hab hwork'.2
          exact ⟨n, n', hn, Store.Extends.push _ _ _ _ hn',
            hrel.mono fun _ _ hxy => List.mem_cons_of_mem _ hxy⟩
    have heach := copiesWell_each ih hstart
    rw [hcells] at h
    generalize copyEach (copyWithin room) (ts.map Tree.cell) _ = r at *
    obtain ⟨ds, p'⟩ := r
    cases ds with
    | none => cases h
    | some ds =>
      cases h
      obtain ⟨hp', hkeep, hds⟩ := heach ds p' rfl
      have hab : p'.Copied a p.store.size := hkeep List.mem_cons_self
      have hlt := (hp'.fresh hab).2
      refine ⟨⟨hp'.grown.put hsize _, fun hxy => ?_, hp'.left_unique, hp'.right_unique,
        fun {x y} hxy hwork' => ?_⟩, fun hxy => hkeep (List.mem_cons_of_mem _ hxy), .ref hab⟩
      · rw [Store.size_put]
        exact hp'.fresh hxy
      · by_cases hx : x = a
        · subst hx
          cases hp'.left_unique hab hxy
          exact ⟨node, node.withCells ds, hget, get?_put_self _ hlt,
            Node.Rel.withCells_self (hcells ▸ hds)⟩
        · have hy : p.store.size ≠ y := fun e => hx (hp'.right_unique hxy (e ▸ hab))
          obtain ⟨n, n', hn, hn', hrel⟩ := hp'.nodes hxy (by simp [hx, hwork'])
          exact ⟨n, n', hn, (get?_put_of_ne _ hy).trans hn', hrel⟩

/-- What a tree leads to is copied well. -/
theorem copiesWell_tree {s : Store} {t : Tree} (hfull : t.Full) (hstand : t.Standing s) (room : Nat)
    {working : List Nat} (hwork : ∀ a ∈ working, a ∉ t.places) {p : Copier}
    (hp : p.Faithful s working) :
    CopiesWell s working p (fun R d => Cell.Rel R t.cell d) (copyWithin room t.cell p) := by
  induction t generalizing room working p with
  | leaf c v =>
    obtain ⟨x, rfl, rfl⟩ := hfull.exists_scalar
    intro d q h
    match room with
    | 0 | 1 => cases h
    | room + 2 =>
      cases h
      exact ⟨hp, id, .scalar x⟩
  | list a xs ih =>
    have hfulls := (Tree.full_list _ _).mp hfull
    have hstands := (Tree.standing_list _ _ s).mp hstand
    rw [Tree.places_list] at hwork
    match room with
    | 0 | 1 => intro d q h; cases h
    | room + 2 =>
      refine copiesWell_node hstands.1 rfl (fun ha => hwork a ha List.mem_cons_self)
        (fun t ht => ?_) hp
      refine @fun p hp => ih t ht (hfulls t ht) (hstands.2 t ht) room (fun b hb => ?_) hp
      rcases List.mem_cons.mp hb with rfl | hb
      · exact Tree.not_mem_places_of_lt hstand hfull rfl (hstands.2 t ht) (hfulls t ht)
          (Tree.sizeOf_lt_list ht)
      · exact fun hbt => hwork b hb (List.mem_cons_of_mem _ (List.mem_flatMap.mpr ⟨t, ht, hbt⟩))
  | obj a ms ih =>
    have hfulls := (Tree.full_obj _ _).mp hfull
    have hstands := (Tree.standing_obj _ _ s).mp hstand
    rw [Tree.places_obj] at hwork
    match room with
    | 0 | 1 => intro d q h; cases h
    | room + 2 =>
      have hcells : (Node.obj (Branches.cells ms)).cells = (ms.map Prod.snd).map Tree.cell := by
        simp [Node.cells, Branches.cells]
      refine copiesWell_node hstands.1 hcells (fun ha => hwork a ha List.mem_cons_self)
        (List.forall_mem_map.mpr fun m hm => ?_) hp
      refine @fun p hp => ih m hm (hfulls m hm) (hstands.2 m hm) room (fun b hb => ?_) hp
      rcases List.mem_cons.mp hb with rfl | hb
      · exact Tree.not_mem_places_of_lt hstand hfull rfl (hstands.2 m hm) (hfulls m hm)
          (Tree.sizeOf_lt_obj hm)
      · exact fun hbt => hwork b hb (List.mem_cons_of_mem _ (List.mem_flatMap.mpr ⟨m, hm, hbt⟩))

/-- A copy of a tree is a tree of the same value at new places. -/
theorem exists_tree_copyWithin {s : Store} {t : Tree} (h : t.Standing s) (hfull : t.Full)
    {room : Nat} {d : Cell} {q : Copier}
    (hcopy : copyWithin room t.cell { store := s } = (some d, q)) :
    ∃ u : Tree, u.Standing q.store ∧ u.Full ∧ u.cell = d ∧ u.value = t.value ∧
      s.Extends q.store ∧ (∀ a ∈ u.places, s.size ≤ a) ∧ (t.places.Nodup → u.places.Nodup) := by
  obtain ⟨hq, -, hd⟩ :=
    copiesWell_tree hfull h room (by simp) (Copier.faithful_start s) d q hcopy
  let C : Coupling s q.store :=
    { rel := q.Copied, left_unique := hq.left_unique, right_unique := hq.right_unique,
      nodes := fun hab => hq.nodes hab (by simp) }
  obtain ⟨u, hcell, hu⟩ := Tree.exists_twin C h hfull hd
  refine ⟨u, hu.standing, hu.full, hcell, hu.value, hq.grown, fun b hb => ?_, fun hnodup => ?_⟩
  · obtain ⟨a, -, hab⟩ := exists_of_mem_right hu.places hb
    exact (hq.fresh hab).1
  · have hunique : Relator.BiUnique C.rel :=
      ⟨fun _ _ _ => C.right_unique, fun _ _ _ => C.left_unique⟩
    exact (List.rel_nodup hunique hu.places).mp hnodup

/-- A tree that leads to no node twice is copied exactly if there is room for its value. -/
theorem isSome_copyWithin_iff {s : Store} {t : Tree} (hfull : t.Full) (hnodup : t.places.Nodup)
    (hstand : t.Standing s) (room : Nat) :
    (copyWithin room t.cell { store := s }).1.isSome ↔ t.value.roomToCopy ≤ room :=
  (copiedIf_tree hfull hnodup room _ hstand fun _ _ => rfl).1

end Reshape

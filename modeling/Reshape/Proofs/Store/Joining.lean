import Mathlib.Data.List.Nodup
import Reshape.Proofs.Store.Coupling

/-!
# Joining trees

Trees of the same value that stand in two stores can be joined to a coupling of the stores
(`Coupling.exists_joins`), node by node, if the coupling does not know their nodes yet and no node
is led to twice. So values are the same to whoever looks at them in a store, wherever they are kept.
-/

namespace Reshape

theorem Scalar.value_inj {x y : Scalar} (h : x.value = y.value) : x = y := by
  cases x <;> cases y <;> simp_all [Scalar.value]

/-- A full tree of a scalar is a leaf. -/
theorem Tree.Full.cell_of_value {t : Tree} (h : t.Full) {x : Scalar} (hx : t.value = x.value) :
    t.cell = .scalar x := by
  cases t with
  | leaf c v =>
    obtain ⟨y, rfl, rfl⟩ := h.exists_scalar
    rw [Tree.value_leaf] at hx
    rw [Scalar.value_inj hx, Tree.cell_leaf]
  | list a xs =>
    rw [Tree.value_list] at hx
    cases x <;> cases hx
  | obj a ms =>
    rw [Tree.value_obj] at hx
    cases x <;> cases hx

theorem Tree.Full.exists_list {t : Tree} (h : t.Full) {vs : List Value} (hv : t.value = .list vs) :
    ∃ a xs, t = .list a xs ∧ xs.map Tree.value = vs := by
  cases t with
  | leaf c v =>
    obtain ⟨y, rfl, rfl⟩ := h.exists_scalar
    rw [Tree.value_leaf] at hv
    cases y <;> cases hv
  | list a xs =>
    rw [Tree.value_list] at hv
    exact ⟨a, xs, rfl, Value.list.inj hv⟩
  | obj a ms =>
    rw [Tree.value_obj] at hv
    cases hv

theorem Tree.Full.exists_obj {t : Tree} (h : t.Full) {ms : Members} (hv : t.value = .obj ms) :
    ∃ a ts, t = .obj a ts ∧ Branches.values ts = ms := by
  cases t with
  | leaf c v =>
    obtain ⟨y, rfl, rfl⟩ := h.exists_scalar
    rw [Tree.value_leaf] at hv
    cases y <;> cases hv
  | list a xs =>
    rw [Tree.value_list] at hv
    cases hv
  | obj a ts =>
    rw [Tree.value_obj] at hv
    exact ⟨a, ts, rfl, Value.obj.inj hv⟩

/-- Members with the same names whose values are related one by one. -/
theorem Keyed.rel_of_snd {κ α β : Type} {P : α → β → Prop} {ms : Keyed κ α} {ns : Keyed κ β}
    (hkeys : ms.map Prod.fst = ns.map Prod.fst)
    (h : List.Forall₂ P (ms.map Prod.snd) (ns.map Prod.snd)) : Keyed.Rel P ms ns := by
  induction ms generalizing ns with
  | nil =>
    obtain rfl := List.map_eq_nil_iff.mp hkeys.symm
    exact .nil
  | cons m ms ih =>
    obtain ⟨n, ns, rfl, hn, hns⟩ := List.map_eq_cons_iff.mp hkeys.symm
    rw [List.map_cons, List.map_cons, List.forall₂_cons] at h
    exact .cons ⟨hn.symm, h.1⟩ (ih hns.symm h.2)

namespace Coupling

variable {s s' : Store}

/-- A coupling knows of nothing among these addresses. -/
def Apart (C : Coupling s s') (ps qs : List Nat) : Prop :=
  (∀ a ∈ ps, ∀ b, ¬ C.rel a b) ∧ ∀ b ∈ qs, ∀ a, ¬ C.rel a b

/-- A coupling that has more nodes, but only from among these addresses. -/
structure Joins (C D : Coupling s s') (ps qs : List Nat) : Prop where
  keeps : ∀ {a b}, C.rel a b → D.rel a b
  new : ∀ {a b}, D.rel a b → C.rel a b ∨ a ∈ ps ∧ b ∈ qs

namespace Joins

variable {C D E : Coupling s s'} {ps qs ps' qs' : List Nat}

theorem refl (C : Coupling s s') : C.Joins C ps qs :=
  ⟨id, .inl⟩

theorem mono (h : C.Joins D ps qs) (hps : ps ⊆ ps') (hqs : qs ⊆ qs') : C.Joins D ps' qs' :=
  ⟨h.keeps, fun hab => (h.new hab).imp id fun hmem => ⟨hps hmem.1, hqs hmem.2⟩⟩

theorem trans (h : C.Joins D ps qs) (h' : D.Joins E ps qs) : C.Joins E ps qs :=
  ⟨fun hab => h'.keeps (h.keeps hab), fun hab => (h'.new hab).elim h.new .inr⟩

/-- What is apart from both is still apart. -/
theorem apart (h : C.Joins D ps qs) (hC : C.Apart ps' qs') (hps : ps.Disjoint ps')
    (hqs : qs.Disjoint qs') : D.Apart ps' qs' := by
  refine ⟨fun a ha b hab => ?_, fun b hb a hab => ?_⟩
  · rcases h.new hab with hab | hmem
    · exact hC.1 a ha b hab
    · exact hps hmem.1 ha
  · rcases h.new hab with hab | hmem
    · exact hC.2 b hb a hab
    · exact hqs hmem.2 hb

end Joins

/-- A coupling with two nodes more that hold corresponding cells. -/
def adjoin (C : Coupling s s') {a b : Nat} {n n' : Node} (hn : s.get? a = some n)
    (hn' : s'.get? b = some n') (h : Node.Rel C.rel n n') (hab : C.Apart [a] [b]) :
    Coupling s s' where
  rel x y := C.rel x y ∨ x = a ∧ y = b
  left_unique {x y z} hy hz := by
    rcases hy with hy | ⟨rfl, rfl⟩ <;> rcases hz with hz | ⟨hx, rfl⟩
    · exact C.left_unique hy hz
    · exact absurd (hx ▸ hy) (hab.1 a (List.mem_singleton_self a) y)
    · exact absurd hz (hab.1 x (List.mem_singleton_self x) z)
    · rfl
  right_unique {x y z} hx hy := by
    rcases hx with hx | ⟨rfl, rfl⟩ <;> rcases hy with hy | ⟨rfl, hz⟩
    · exact C.right_unique hx hy
    · exact absurd (hz ▸ hx) (hab.2 b (List.mem_singleton_self b) x)
    · exact absurd hy (hab.2 z (List.mem_singleton_self z) y)
    · rfl
  nodes {x y} hxy := by
    rcases hxy with hxy | ⟨rfl, rfl⟩
    · obtain ⟨m, m', hm, hm', hrel⟩ := C.nodes hxy
      exact ⟨m, m', hm, hm', hrel.mono fun _ _ => .inl⟩
    · exact ⟨n, n', hn, hn', h.mono fun _ _ => .inl⟩

theorem joins_adjoin (C : Coupling s s') {a b : Nat} {n n' : Node} (hn : s.get? a = some n)
    (hn' : s'.get? b = some n') (h : Node.Rel C.rel n n') (hab : C.Apart [a] [b]) :
    C.Joins (C.adjoin hn hn' h hab) [a] [b] where
  keeps := .inl
  new hxy := by
    rcases hxy with hxy | ⟨rfl, rfl⟩
    · exact .inl hxy
    · exact .inr ⟨List.mem_singleton_self _, List.mem_singleton_self _⟩

/-- Two trees can be joined to any coupling that is apart from them. -/
def CanJoin (s s' : Store) (t t' : Tree) : Prop :=
  ∀ C : Coupling s s', C.Apart t.places t'.places →
    ∃ D : Coupling s s', C.Joins D t.places t'.places ∧ Cell.Rel D.rel t.cell t'.cell

/-- Trees that can be joined one by one can be joined one after the other. -/
theorem exists_joins_each {xs ys : List Tree}
    (h : ∀ x ∈ xs, ∀ y ∈ ys, x.value = y.value → CanJoin s s' x y)
    (hv : xs.map Tree.value = ys.map Tree.value) (hnodup : (xs.flatMap Tree.places).Nodup)
    (hnodup' : (ys.flatMap Tree.places).Nodup) (C : Coupling s s')
    (hC : C.Apart (xs.flatMap Tree.places) (ys.flatMap Tree.places)) :
    ∃ D : Coupling s s', C.Joins D (xs.flatMap Tree.places) (ys.flatMap Tree.places) ∧
      List.Forall₂ (Cell.Rel D.rel) (xs.map Tree.cell) (ys.map Tree.cell) := by
  induction xs generalizing ys C with
  | nil =>
    obtain rfl := List.map_eq_nil_iff.mp hv.symm
    exact ⟨C, .refl C, .nil⟩
  | cons x xs ih =>
    obtain ⟨y, ys, rfl, hy, hys⟩ := List.map_eq_cons_iff.mp hv.symm
    simp only [List.flatMap_cons] at hnodup hnodup' hC ⊢
    obtain ⟨D, hD, hcell⟩ := h x List.mem_cons_self y List.mem_cons_self hy.symm C
      ⟨fun a ha => hC.1 a (List.mem_append_left _ ha), fun b hb =>
        hC.2 b (List.mem_append_left _ hb)⟩
    have hrest := hD.apart
      ⟨fun a ha => hC.1 a (List.mem_append_right _ ha), fun b hb =>
        hC.2 b (List.mem_append_right _ hb)⟩
      (List.disjoint_of_nodup_append hnodup) (List.disjoint_of_nodup_append hnodup')
    obtain ⟨E, hE, hcells⟩ := ih
      (fun x hx y hy => h x (List.mem_cons_of_mem _ hx) y (List.mem_cons_of_mem _ hy)) hys.symm
      (List.Nodup.of_append_right hnodup) (List.Nodup.of_append_right hnodup') D hrest
    refine ⟨E, (hD.mono ?_ ?_).trans (hE.mono ?_ ?_), .cons (hcell.mono fun _ _ => hE.keeps) hcells⟩
    · exact List.subset_append_left _ _
    · exact List.subset_append_left _ _
    · exact List.subset_append_right _ _
    · exact List.subset_append_right _ _

/-- Roots whose parts can be joined can be joined themselves. -/
theorem exists_joins_root {a b : Nat} {n n' : Node} {ps qs : List Nat} (hn : s.get? a = some n)
    (hn' : s'.get? b = some n') (ha : a ∉ ps) (hb : b ∉ qs) {C D : Coupling s s'}
    (hC : C.Apart (a :: ps) (b :: qs)) (hD : C.Joins D ps qs) (hrel : Node.Rel D.rel n n') :
    ∃ E : Coupling s s', C.Joins E (a :: ps) (b :: qs) ∧ Cell.Rel E.rel (.ref a) (.ref b) := by
  have hroot : D.Apart [a] [b] := by
    refine hD.apart ⟨fun x hx => hC.1 x ?_, fun y hy => hC.2 y ?_⟩ ?_ ?_
    · exact List.mem_cons.mpr (.inl (List.mem_singleton.mp hx))
    · exact List.mem_cons.mpr (.inl (List.mem_singleton.mp hy))
    · exact List.disjoint_singleton.mpr ha
    · exact List.disjoint_singleton.mpr hb
  have hE := D.joins_adjoin hn hn' hrel hroot
  refine ⟨_, (hD.mono ?_ ?_).trans (hE.mono ?_ ?_), .ref (.inr ⟨rfl, rfl⟩)⟩
  · exact List.subset_cons_self a ps
  · exact List.subset_cons_self b qs
  · exact List.cons_subset_cons a (List.nil_subset ps)
  · exact List.cons_subset_cons b (List.nil_subset qs)

/-- Trees of the same value can be joined, if no node is led to twice. -/
theorem exists_joins {t t' : Tree} (ht : t.Standing s) (hfull : t.Full) (hnodup : t.places.Nodup)
    (ht' : t'.Standing s') (hfull' : t'.Full) (hnodup' : t'.places.Nodup)
    (hv : t.value = t'.value) :
    CanJoin s s' t t' := by
  induction t generalizing t' with
  | leaf c v =>
    intro C _
    obtain ⟨x, rfl, rfl⟩ := hfull.exists_scalar
    rw [Tree.value_leaf] at hv
    refine ⟨C, .refl C, ?_⟩
    rw [hfull'.cell_of_value hv.symm]
    exact .scalar x
  | list a xs ih =>
    intro C hC
    rw [Tree.value_list] at hv
    obtain ⟨b, ys, rfl, hvs⟩ := hfull'.exists_list hv.symm
    rw [Tree.standing_list] at ht ht'
    rw [Tree.full_list] at hfull hfull'
    rw [Tree.places_list, List.nodup_cons] at hnodup hnodup'
    rw [Tree.places_list, Tree.places_list] at hC ⊢
    obtain ⟨D, hD, hcells⟩ := exists_joins_each (fun x hx y hy => ih x hx (ht.2 x hx) (hfull x hx)
        ((List.nodup_flatMap.mp hnodup.2).1 x hx) (ht'.2 y hy) (hfull' y hy)
        ((List.nodup_flatMap.mp hnodup'.2).1 y hy)) hvs.symm hnodup.2 hnodup'.2 C
      ⟨fun x hx => hC.1 x (List.mem_cons_of_mem _ hx), fun y hy =>
        hC.2 y (List.mem_cons_of_mem _ hy)⟩
    exact exists_joins_root ht.1 ht'.1 hnodup.1 hnodup'.1 hC hD (.list hcells)
  | obj a ms ih =>
    intro C hC
    rw [Tree.value_obj] at hv
    obtain ⟨b, ns, rfl, hvs⟩ := hfull'.exists_obj hv.symm
    rw [Tree.standing_obj] at ht ht'
    rw [Tree.full_obj] at hfull hfull'
    rw [Tree.places_obj, List.nodup_cons] at hnodup hnodup'
    rw [Tree.places_obj, Tree.places_obj] at hC ⊢
    -- The trees of the members, without their names.
    have hplaces : ∀ ts : Branches, ts.places = (ts.map Prod.snd).flatMap Tree.places := by
      intro ts
      rw [Branches.places, List.flatMap_map]
    obtain ⟨D, hD, hcells⟩ := @exists_joins_each s s' (ms.map Prod.snd) (ns.map Prod.snd) (by
        simp only [List.mem_map, forall_exists_index, and_imp]
        rintro _ m hm rfl _ n hn rfl hmn
        exact ih m hm (ht.2 m hm) (hfull m hm) ((List.nodup_flatMap.mp hnodup.2).1 m hm)
          (ht'.2 n hn)
          (hfull' n hn) ((List.nodup_flatMap.mp hnodup'.2).1 n hn) hmn) (by
        have h := congrArg (List.map Prod.snd) hvs.symm
        simpa [Branches.values, Function.comp_def] using h) (hplaces ms ▸ hnodup.2)
          (hplaces ns ▸ hnodup'.2) C (by
        rw [← hplaces, ← hplaces]
        exact ⟨fun x hx => hC.1 x (List.mem_cons_of_mem _ hx),
          fun y hy => hC.2 y (List.mem_cons_of_mem _ hy)⟩)
    rw [← hplaces, ← hplaces] at hD
    refine exists_joins_root ht.1 ht'.1 hnodup.1 hnodup'.1 hC hD (.obj (Keyed.rel_of_snd ?_ ?_))
    · have h := congrArg (List.map Prod.fst) hvs.symm
      simpa [Branches.values, Branches.cells, Function.comp_def] using h
    · simpa [Branches.cells, Function.comp_def] using hcells

end Coupling

end Reshape

import Reshape.Proofs.Mapping.Run
import Reshape.Proofs.Store.Copying

/-!
# What a store shows

What is read of a tree in a store is a tree again (`exists_tree_read`): it shows what is read of the
value, and no node is led to twice in it if none was. So is what is copied of it
(`exists_tree_copy`), at new places. A store in which every cell leads to a node is coupled with
itself (`Coupling.self`). `Store.Same` says that two cells lead to the same, wherever it is kept.
-/

namespace Reshape

/-! ### Looking at trees -/

/-- The places of all that is found. -/
def Found.places : Found Tree → List Nat
  | one t => t.places
  | all ts => ts.flatMap Tree.places

namespace Tree

/-- A tree is looked at as the store in which it stands. -/
def look : Look Tree where
  view
    | leaf (.scalar x) _ => .scalar x
    | leaf (.ref _) _ => .list []
    | list _ xs => .list xs
    | obj _ ms => .obj ms
  scalar x := leaf (.scalar x) x.value
  address? _ := none

theorem look_value : Look.Rel look Value.look fun t v => t.Full ∧ t.value = v where
  scalar x := ⟨(full_leaf _ _).mpr ⟨x, rfl, rfl⟩, value_leaf _ _⟩
  view := by
    rintro t _ ⟨hfull, rfl⟩
    cases t with
    | leaf c v =>
      obtain ⟨x, rfl, rfl⟩ := hfull.exists_scalar
      rw [value_leaf]
      cases x <;> exact .scalar _
    | list a xs =>
      rw [full_list] at hfull
      rw [value_list]
      refine .list (List.forall₂_map_right_iff.mpr ?_)
      exact List.forall₂_same.mpr fun x hx => ⟨hfull x hx, rfl⟩
    | obj a ms =>
      rw [full_obj] at hfull
      rw [value_obj]
      refine .obj (List.forall₂_map_right_iff.mpr ?_)
      exact List.forall₂_same.mpr fun m hm => ⟨rfl, hfull m hm, rfl⟩

theorem look_store (s : Store) :
    Look.Rel look s.look fun t c => t.Standing s ∧ t.Full ∧ t.cell = c where
  scalar x := ⟨standing_leaf _ _ s, (full_leaf _ _).mpr ⟨x, rfl, rfl⟩, rfl⟩
  view := by
    rintro t _ ⟨hstand, hfull, rfl⟩
    cases t with
    | leaf c v =>
      obtain ⟨x, rfl, rfl⟩ := hfull.exists_scalar
      exact .scalar x
    | list a xs =>
      rw [standing_list] at hstand
      rw [full_list] at hfull
      have hview : s.look.view (list a xs).cell = .list (xs.map cell) := by
        rw [cell_list]
        simp [Store.look, hstand.1]
      rw [hview]
      refine .list (List.forall₂_map_right_iff.mpr ?_)
      exact List.forall₂_same.mpr fun x hx => ⟨hstand.2 x hx, hfull x hx, rfl⟩
    | obj a ms =>
      rw [standing_obj] at hstand
      rw [full_obj] at hfull
      have hview : s.look.view (obj a ms).cell = .obj (Branches.cells ms) := by
        rw [cell_obj]
        simp [Store.look, hstand.1]
      rw [hview]
      refine .obj (List.forall₂_map_right_iff.mpr ?_)
      exact List.forall₂_same.mpr fun m hm => ⟨rfl, hstand.2 m hm, hfull m hm, rfl⟩

/-- The places of a tree that need not be there. -/
def placesOf (x : Option Tree) : List Nat :=
  (x.map places).getD []

theorem places_under {t : Tree} {key : Text} {x : Option Tree} (h : look.under t key = .ok x) :
    (placesOf x).Sublist t.places := by
  unfold Look.under at h
  cases t with
  | leaf c v =>
    have hnone : x = none := by
      cases c with
      | scalar y =>
        cases h
        rfl
      | ref a =>
        dsimp only [look] at h
        obtain ⟨position, -, hx⟩ := Traverse.bind_eq_ok_iff.mp h
        cases position <;> cases hx <;> rfl
    subst hnone
    exact List.nil_sublist _
  | list a xs =>
    obtain ⟨position, -, hx⟩ := Traverse.bind_eq_ok_iff.mp h
    rw [places_list]
    refine List.Sublist.cons _ ?_
    cases position with
    | none =>
      cases hx
      exact List.nil_sublist _
    | some i =>
      cases hx
      cases hi : xs[i]? with
      | none => exact List.nil_sublist _
      | some u =>
        exact List.sublist_flatten_of_mem (List.mem_map.mpr ⟨u, List.mem_of_getElem? hi, rfl⟩)
  | obj a ms =>
    have hx : Keyed.get? ms key = x := Except.ok.inj h
    subst hx
    rw [places_obj]
    refine List.Sublist.cons _ ?_
    cases hget : Keyed.get? ms key with
    | none => exact List.nil_sublist _
    | some u =>
      exact List.sublist_flatten_of_mem (List.mem_map.mpr ⟨_, Keyed.mem_of_get? hget, rfl⟩)

theorem places_fanOut (x : Option Tree) :
    ((look.fanOut x).flatMap places).Sublist (placesOf x) := by
  cases x with
  | none => exact List.nil_sublist _
  | some t =>
    cases t with
    | leaf c v =>
      cases c with
      | scalar y => cases y <;> simp [Look.fanOut, look, placesOf]
      | ref a => simp [Look.fanOut, look, placesOf]
    | list a xs => simp [Look.fanOut, look, placesOf]
    | obj a ms => simp [Look.fanOut, look, placesOf]

theorem places_pick (position : Nat) (x : Option Tree) :
    (placesOf (look.pick position x)).Sublist (placesOf x) := by
  cases x with
  | none => exact List.nil_sublist _
  | some t =>
    cases t with
    | leaf c v => cases c <;> simp [Look.pick, look, placesOf]
    | list a xs =>
      have hpick : look.pick position (some (list a xs)) = xs[position]? := rfl
      rw [hpick]
      cases hi : xs[position]? with
      | none => exact List.nil_sublist _
      | some u =>
        simp only [placesOf, Option.map_some, Option.getD_some, places_list]
        refine List.Sublist.cons _ ?_
        exact List.sublist_flatten_of_mem (List.mem_map.mpr ⟨u, List.mem_of_getElem? hi, rfl⟩)
    | obj a ms => exact List.nil_sublist _

theorem places_getD (x : Option Tree) : (x.getD (look.scalar .null)).places = placesOf x := by
  cases x with
  | none => exact places_leaf _ _
  | some t => rfl

theorem places_spread {seg : Segment} {t : Tree} {us : List Tree} (h : look.spread seg t = .ok us) :
    (us.flatMap places).Sublist t.places := by
  unfold Look.spread at h
  split at h
  · cases h
    exact List.nil_sublist _
  · obtain ⟨x, hx, hus⟩ := Traverse.bind_eq_ok_iff.mp h
    refine List.Sublist.trans ?_ (places_under hx)
    split at hus <;> cases hus
    · simp [places_getD]
    · rw [List.flatMap_singleton, places_getD]
      exact places_pick _ x
    · exact places_fanOut x

theorem places_readAll {ts us : List Tree} {p : Path} (h : look.readAll ts p = .ok us) :
    (us.flatMap places).Sublist (ts.flatMap places) := by
  induction p generalizing ts with
  | nil =>
    cases h
    exact .refl _
  | cons seg rest ih =>
    obtain ⟨uss, huss, hrest⟩ := Traverse.bind_eq_ok_iff.mp h
    refine (ih hrest).trans ?_
    clear hrest h
    induction ts generalizing uss with
    | nil =>
      cases huss
      exact .refl _
    | cons t ts ihts =>
      rw [List.mapM_cons] at huss
      obtain ⟨vs, hvs, hmore⟩ := Traverse.bind_eq_ok_iff.mp huss
      obtain ⟨vss, hvss, heq⟩ := Traverse.bind_eq_ok_iff.mp hmore
      cases heq
      rw [List.flatten_cons, List.flatMap_append, List.flatMap_cons]
      exact (places_spread hvs).append (ihts vss hvss)

/-- What a path finds leads to no node more often than what it is read from. -/
theorem places_readFrom {x : Option Tree} {p : Path} {f : Found Tree}
    (h : look.readFrom x p = .ok (some f)) : f.places.Sublist (placesOf x) := by
  induction p generalizing x with
  | nil =>
    cases x with
    | none => cases h
    | some t =>
      cases h
      exact .refl _
  | cons seg rest ih =>
    cases x with
    | none => cases h
    | some t =>
      rw [Look.readFrom] at h
      split at h
      · cases h
      · obtain ⟨y, hy, hfound⟩ := Traverse.bind_eq_ok_iff.mp h
        have hunder := places_under hy
        split at hfound
        · exact (ih hfound).trans hunder
        · exact (ih hfound).trans ((places_pick _ y).trans hunder)
        · obtain ⟨ts, hts, heq⟩ := Traverse.bind_eq_ok_iff.mp hfound
          cases heq
          exact (places_readAll hts).trans ((places_fanOut y).trans hunder)

end Tree

/-- Reading from a tree comes to what reading its value comes to, in a tree that is new at most at
its root. -/
theorem exists_tree_read {s : Store} {t : Tree} (h : t.Standing s) (hfull : t.Full) (text : Text) :
    match Path.readText t.value text with
    | .error limit => (Run.read t.cell text).within s = (.error (.tooManyDigits limit), s)
    | .ok none => (Run.read t.cell text).within s = (.ok none, s)
    | .ok (some w) => ∃ (u : Tree) (s' : Store),
      (Run.read t.cell text).within s = (.ok (some u.cell), s') ∧ s.Extends s' ∧ u.Standing s' ∧
        u.Full ∧ u.value = w ∧ (t.places.Nodup → u.places.Nodup) ∧
        ∀ a ∈ u.places, a ∈ t.places ∨ s.size ≤ a := by
  have hvalue := Tree.look_value.readText ⟨hfull, rfl⟩ text
  have hstore := (Tree.look_store s).readText ⟨h, hfull, rfl⟩ text
  have hplaces : ∀ f, Tree.look.readText t text = .ok (some f) → f.places.Sublist t.places := by
    intro f hf
    unfold Look.readText at hf
    split at hf
    · cases hf
    · obtain ⟨p, -, hread⟩ := Traverse.bind_eq_ok_iff.mp hf
      exact Tree.places_readFrom hread
  rw [Run.read_within, ← readText_value]
  generalize Tree.look.readText t text = x, s.look.readText t.cell text = y,
    Value.look.readText t.value text = z at hvalue hstore hplaces
  cases hvalue with
  | error limit =>
    cases hstore
    rfl
  | ok hvalue =>
    cases hstore with
    | ok hstore =>
      cases hvalue with
      | none =>
        cases hstore
        rfl
      | some hvalue =>
        cases hstore with
        | some hstore =>
          cases hvalue with
          | @one u w hu =>
            cases hstore with
            | one hstand =>
              obtain ⟨hstand, -, rfl⟩ := hstand
              exact ⟨u, s, rfl, .refl s, hstand, hu.1, hu.2, fun hnodup =>
                hnodup.sublist (hplaces _ rfl), fun a ha => .inl ((hplaces _ rfl).subset ha)⟩
          | @all us ws hus =>
            cases hstore with
            | @all _ cs hcs =>
              have hcells : us.map Tree.cell = cs := by
                rw [← List.forall₂_eq_eq_eq, List.forall₂_map_left_iff]
                exact hcs.imp fun _ _ hc => hc.2.2
              have hvalues : us.map Tree.value = ws := by
                rw [← List.forall₂_eq_eq_eq, List.forall₂_map_left_iff]
                exact hus.imp fun _ _ hw => hw.2
              have hstand : ∀ u ∈ us, u.Standing s ∧ u.Full := fun u hu =>
                let ⟨_, _, hc⟩ := exists_of_mem_right hcs.flip hu
                ⟨hc.1, hc.2.1⟩
              refine ⟨.list s.size us, _, rfl, .push s _, ?_, ?_, ?_, fun hnodup => ?_,
                fun a ha => ?_⟩
              · rw [Tree.standing_list, hcells]
                exact ⟨get?_push_self s _, fun u hu => (hstand u hu).1.mono (.push s _)⟩
              · rw [Tree.full_list]
                exact fun u hu => (hstand u hu).2
              · rw [Tree.value_list, hvalues]
                rfl
              · have hsub := hplaces _ rfl
                rw [Tree.places_list]
                refine List.nodup_cons.mpr ⟨fun hmem => ?_, hnodup.sublist hsub⟩
                exact Nat.lt_irrefl _ (h.lt_size (hsub.subset hmem))
              · rw [Tree.places_list] at ha
                rcases List.mem_cons.mp ha with rfl | ha
                · exact .inr (Nat.le_refl _)
                · exact .inl ((hplaces _ rfl).subset ha)

/-- What is read of a cell that shows a value shows what is read of the value. -/
theorem exists_read_shows_iff {s : Store} {c : Cell} {v w : Value} (h : s.Shows c v) {text : Text} :
    (∃ d s', (Run.read c text).within s = (.ok (some d), s') ∧ s'.Shows d w) ↔
      Path.readText v text = .ok (some w) := by
  obtain ⟨t, ht, hfull, rfl, rfl⟩ := h
  have hread := exists_tree_read ht hfull text
  generalize Path.readText t.value text = found at hread
  cases found with
  | error limit => simp [hread]
  | ok found =>
    cases found with
    | none => simp [hread]
    | some w' =>
      obtain ⟨u, s', hu, -, hstand, hufull, rfl, -⟩ := hread
      rw [hu]
      constructor
      · rintro ⟨d, s'', heq, hd⟩
        cases heq
        rw [hd.unique ⟨u, hstand, hufull, rfl, rfl⟩]
      · intro heq
        cases heq
        exact ⟨_, _, rfl, u, hstand, hufull, rfl, rfl⟩

/-- A copy that is made is a tree of the same value at new places. -/
theorem exists_tree_copy {s s' : Store} {t : Tree} (h : t.Standing s) (hfull : t.Full) {room : Nat}
    {d : Cell} (hcopy : (Run.copy room t.cell).within s = (.ok d, s')) :
    ∃ u : Tree, u.Standing s' ∧ u.Full ∧ u.cell = d ∧ u.value = t.value ∧ s.Extends s' ∧
      (∀ a ∈ u.places, s.size ≤ a) ∧ (t.places.Nodup → u.places.Nodup) := by
  cases hc : t.cell with
  | scalar x =>
    rw [hc] at hcopy
    cases hcopy
    cases t with
    | leaf c v => exact ⟨_, h, hfull, hc, rfl, .refl s, by simp, id⟩
    | list a xs => cases hc
    | obj a ms => cases hc
  | ref a =>
    rw [hc, Run.copy_within, ← hc] at hcopy
    split at hcopy
    · next d' p hp =>
      cases hcopy
      exact exists_tree_copyWithin h hfull hp
    · cases hcopy

/-- A tree that leads to no node twice is copied exactly if its value is not too deep. -/
theorem copy_within_tree {s : Store} {t : Tree} (h : t.Standing s) (hfull : t.Full)
    (hnodup : t.places.Nodup) (room : Nat) :
    (t.value.TooDeepFor room → ∃ s', (Run.copy room t.cell).within s = (.error .tooDeep, s')) ∧
      (¬ t.value.TooDeepFor room → ∃ d s', (Run.copy room t.cell).within s = (.ok d, s')) := by
  cases hc : t.cell with
  | scalar x =>
    refine ⟨fun hdeep => ?_, fun _ => ⟨_, s, rfl⟩⟩
    cases t with
    | leaf c v =>
      obtain ⟨y, rfl, rfl⟩ := hfull.exists_scalar
      rw [Tree.value_leaf] at hdeep
      obtain ⟨⟨xs, h⟩ | ⟨ms, h⟩, -⟩ := hdeep <;> cases y <;> cases h
    | list a xs => cases hc
    | obj a ms => cases hc
  | ref a =>
    have hcontainer : t.value.IsContainer := by
      cases t with
      | leaf c v =>
        obtain ⟨y, rfl, rfl⟩ := hfull.exists_scalar
        cases hc
      | list b xs => exact .inl ⟨_, Tree.value_list b xs⟩
      | obj b ms => exact .inr ⟨_, Tree.value_obj b ms⟩
    have hdeep : t.value.TooDeepFor room ↔
        ¬ (copyWithin room (.ref a) { store := s }).1.isSome := by
      rw [← hc, isSome_copyWithin_iff hfull hnodup h, Nat.not_le, Value.TooDeepFor]
      exact and_iff_right hcontainer
    rw [hdeep, Run.copy_within]
    generalize copyWithin room (.ref a) { store := s } = r
    obtain ⟨_ | d, p⟩ := r <;> simp

/-- A value that is given nodes of its own is a tree of new places. -/
theorem exists_tree_loaded {s s' : Store} {room : Nat} {v : Value} {c : Cell}
    (h : (Run.load room v).within s = (.ok c, s')) :
    ∃ u : Tree, u.Standing s' ∧ u.Full ∧ u.cell = c ∧ u.value = v ∧ s.Gains s' u.places := by
  have hload : (if room < v.roomToCopy then ((.error .tooDeep, s) : Except Stop Cell × Store)
      else (.ok (load v s).1, (load v s).2)) = (.ok c, s') →
      ∃ u : Tree, u.Standing s' ∧ u.Full ∧ u.cell = c ∧ u.value = v ∧ s.Gains s' u.places := by
    intro h
    split at h
    · cases h
    · cases h
      exact exists_tree_load v s
  cases v with
  | list xs => exact hload h
  | obj ms => exact hload h
  | null =>
    cases h
    exact exists_tree_scalar .null s
  | bool b =>
    cases h
    exact exists_tree_scalar (.bool b) s
  | int n =>
    cases h
    exact exists_tree_scalar (.int n) s
  | double x =>
    cases h
    exact exists_tree_scalar (.double x) s
  | str x =>
    cases h
    exact exists_tree_scalar (.str x) s

/-! ### A store and itself -/

theorem Cell.rel_self {R : Nat → Nat → Prop} {c : Cell} (h : ∀ a, c = .ref a → R a a) :
    Cell.Rel R c c := by
  cases c with
  | scalar x => exact .scalar x
  | ref a => exact .ref (h a rfl)

theorem Node.rel_self {R : Nat → Nat → Prop} {n : Node} (h : ∀ a, .ref a ∈ n.cells → R a a) :
    Node.Rel R n n := by
  have hcell : ∀ c ∈ n.cells, Cell.Rel R c c := fun c hc =>
    Cell.rel_self fun a ha => h a (ha ▸ hc)
  cases n with
  | list cs => exact .list (List.forall₂_same.mpr hcell)
  | obj ms =>
    exact .obj (List.forall₂_same.mpr fun m hm =>
      ⟨rfl, hcell m.2 (List.mem_map.mpr ⟨m, hm, rfl⟩)⟩)

/-- A set of nodes that is not led out of. -/
def Store.ClosedUnder (s : Store) (P : Nat → Prop) : Prop :=
  ∀ a, P a → ∃ n, s.get? a = some n ∧ ∀ b, .ref b ∈ n.cells → P b

/-- The coupling of a store with itself on some of its nodes. -/
def Coupling.within {s : Store} {P : Nat → Prop} (h : s.ClosedUnder P) : Coupling s s where
  rel a b := a = b ∧ P a
  left_unique hb hc := hb.1.symm.trans hc.1
  right_unique ha hb := ha.1.trans hb.1.symm
  nodes := by
    rintro a _ ⟨rfl, ha⟩
    obtain ⟨n, hn, hcells⟩ := h a ha
    exact ⟨n, n, hn, hn, Node.rel_self fun b hb => ⟨rfl, hcells b hb⟩⟩

namespace Store

variable {s t : Store}

theorem Closed.closedUnder (h : s.Closed) : s.ClosedUnder (· < s.size) := by
  intro a ha
  cases hn : s.get? a with
  | none => exact absurd ha (Nat.not_lt.mpr ((s.get?_eq_none_iff a).mp hn))
  | some n => exact ⟨n, rfl, h a n hn⟩

theorem closed_empty : Store.Closed {} := by
  intro a n hn
  cases hn

theorem Closed.push (h : s.Closed) {n : Node} (hn : ∀ b, .ref b ∈ n.cells → b < s.size) :
    (s.push n).Closed := by
  intro a m hm b hb
  rw [size_push]
  rw [get?_push] at hm
  split at hm
  · cases hm
    exact Nat.lt_succ_of_lt (hn b hb)
  · exact Nat.lt_succ_of_lt (h a m hm b hb)

end Store

mutual

/-- What is loaded into a closed store leaves it closed. -/
theorem closed_load : (v : Value) → {s : Store} → s.Closed →
    (load v s).2.Closed ∧ (load v s).2.Has (load v s).1
  | .null, _, h | .bool _, _, h | .int _, _, h | .double _, _, h | .str _, _, h => ⟨h, trivial⟩
  | .list xs, s, h => by
    obtain ⟨hclosed, hcells⟩ := closed_loadElements xs h
    refine ⟨hclosed.push fun b hb => hcells _ hb, ?_⟩
    simp [load, Store.Has]
  | .obj ms, s, h => by
    obtain ⟨hclosed, hcells⟩ := closed_loadMembers ms h
    refine ⟨hclosed.push fun b hb => ?_, ?_⟩
    · obtain ⟨m, hm, hcell⟩ := List.mem_map.mp hb
      have hhas := hcells m hm
      rw [hcell] at hhas
      exact hhas
    · simp [load, Store.Has]

theorem closed_loadElements : (xs : List Value) → {s : Store} → s.Closed →
    (loadElements xs s).2.Closed ∧ ∀ c ∈ (loadElements xs s).1, (loadElements xs s).2.Has c
  | [], _, h => ⟨h, fun _ hc => nomatch hc⟩
  | x :: xs, s, h => by
    obtain ⟨hclosed, hhas⟩ := closed_load x h
    obtain ⟨hclosed', hcells⟩ := closed_loadElements xs hclosed
    obtain ⟨_, _, _, _, _, hgains⟩ := exists_trees_loadElements xs (load x s).2
    rw [loadElements]
    exact ⟨hclosed', List.forall_mem_cons.mpr ⟨hhas.mono hgains.grown.size_le, hcells⟩⟩

theorem closed_loadMembers : (ms : List (Text × Value)) → {s : Store} → s.Closed →
    (loadMembers ms s).2.Closed ∧ ∀ m ∈ (loadMembers ms s).1, (loadMembers ms s).2.Has m.2
  | [], _, h => ⟨h, fun _ hc => nomatch hc⟩
  | (k, v) :: ms, s, h => by
    obtain ⟨hclosed, hhas⟩ := closed_load v h
    obtain ⟨hclosed', hcells⟩ := closed_loadMembers ms hclosed
    obtain ⟨_, _, _, _, _, hgains⟩ := exists_trees_loadMembers ms (load v s).2
    rw [loadMembers]
    exact ⟨hclosed', List.forall_mem_cons.mpr ⟨hhas.mono hgains.grown.size_le, hcells⟩⟩

end

/-- What nodes of a tree lead to is in the tree. -/
theorem Tree.Standing.closedUnder {s : Store} {t : Tree} (h : t.Standing s) (hfull : t.Full) :
    s.ClosedUnder (· ∈ t.places) := by
  induction t with
  | leaf c v =>
    intro a ha
    rw [Tree.places_leaf] at ha
    cases ha
  | list b xs ih =>
    rw [Tree.standing_list] at h
    rw [Tree.full_list] at hfull
    intro a ha
    rw [Tree.places_list] at ha ⊢
    rcases List.mem_cons.mp ha with rfl | ha
    · refine ⟨_, h.1, fun c hc => ?_⟩
      obtain ⟨x, hx, hcell⟩ := List.mem_map.mp hc
      exact List.mem_cons_of_mem _
        (List.mem_flatMap.mpr ⟨x, hx, (h.2 x hx).live (hfull x hx) hcell⟩)
    · obtain ⟨x, hx, ha⟩ := List.mem_flatMap.mp ha
      obtain ⟨n, hn, hcells⟩ := ih x hx (h.2 x hx) (hfull x hx) a ha
      exact ⟨n, hn, fun c hc => List.mem_cons_of_mem _ (List.mem_flatMap.mpr ⟨x, hx, hcells c hc⟩)⟩
  | obj b ms ih =>
    rw [Tree.standing_obj] at h
    rw [Tree.full_obj] at hfull
    intro a ha
    rw [Tree.places_obj] at ha ⊢
    rcases List.mem_cons.mp ha with rfl | ha
    · refine ⟨_, h.1, fun c hc => ?_⟩
      obtain ⟨n, hn, hcell⟩ := List.mem_map.mp hc
      obtain ⟨m, hm, rfl⟩ := List.mem_map.mp hn
      exact List.mem_cons_of_mem _
        (List.mem_flatMap.mpr ⟨m, hm, (h.2 m hm).live (hfull m hm) hcell⟩)
    · obtain ⟨m, hm, ha⟩ := List.mem_flatMap.mp ha
      obtain ⟨n, hn, hcells⟩ := ih m hm (h.2 m hm) (hfull m hm) a ha
      exact ⟨n, hn, fun c hc => List.mem_cons_of_mem _ (List.mem_flatMap.mpr ⟨m, hm, hcells c hc⟩)⟩

namespace Coupling

variable {s t : Store}

/-- The coupling of a closed store with itself. -/
def self (h : s.Closed) : Coupling s s :=
  within h.closedUnder

theorem cell_self (h : s.Closed) {c : Cell} (hc : s.Has c) : Cell.Rel (self h).rel c c :=
  Cell.rel_self fun a ha => ⟨rfl, by subst ha; exact hc⟩

end Coupling

/-! ### The same things -/

namespace Store

variable {s t : Store} {c d : Cell} {v : Value}

/-- Two cells lead to the same: to nodes that correspond one to one, with the same scalars and names
in them, however they are shared. -/
def Same (s t : Store) (c d : Cell) : Prop :=
  ∃ C : Coupling s t, Cell.Rel C.rel c d

end Store

end Reshape

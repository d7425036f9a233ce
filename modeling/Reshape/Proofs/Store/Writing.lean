import Reshape.Proofs.Store.Planting
import Reshape.Store.Paths

/-!
# Writing into trees

What a write into an output does, told on trees. Where branches stand in an output, or in an object
on the way, and no node is led to twice, a write does what planting tells: the branches that are
planted stand there after it, and nothing but the nodes on the way is changed
(`Canvas.write_stands`).
-/

namespace Reshape

/-- Branches stand where a canvas is written into. -/
structure Canvas.Stands (c : Canvas) (h : Holder) (ts : Branches) : Prop where
  output : h = .output → c.members = ts.cells
  node : ∀ a, h = .node a → c.store.get? a = some (.obj ts.cells)
  standing : ∀ m ∈ ts, m.2.Standing c.store
  outside : ∀ a, h = .node a → a ∉ ts.places

/-- From one canvas to the other nothing changed but what is written into and nodes at some places.
-/
structure Canvas.Only (c c' : Canvas) (h : Holder) (places : List Nat) : Prop where
  size_le : c.store.size ≤ c'.store.size
  same : ∀ a, a < c.store.size → h ≠ .node a → a ∉ places → c'.store.get? a = c.store.get? a
  members : h ≠ .output → c'.members = c.members

namespace Canvas

variable {c c' c'' : Canvas} {h : Holder} {ts : Branches} {ps qs : List Nat}

theorem Only.refl (c : Canvas) (h : Holder) (ps : List Nat) : Only c c h ps :=
  ⟨Nat.le_refl _, fun _ _ _ _ => rfl, fun _ => rfl⟩

theorem Only.mono (hc : Only c c' h ps) (hps : ∀ a ∈ ps, a ∈ qs) : Only c c' h qs :=
  ⟨hc.size_le, fun a ha hh hq => hc.same a ha hh fun hp => hq (hps a hp), hc.members⟩

theorem Only.trans (hc : Only c c' h ps) (hc' : Only c' c'' h ps) : Only c c'' h ps where
  size_le := Nat.le_trans hc.size_le hc'.size_le
  same a ha hh hp :=
    (hc'.same a (Nat.lt_of_lt_of_le ha hc.size_le) hh hp).trans (hc.same a ha hh hp)
  members hh := (hc'.members hh).trans (hc.members hh)

theorem Stands.membersAt (hs : c.Stands h ts) : c.membersAt h = ts.cells := by
  cases h with
  | output => exact hs.output rfl
  | node a =>
    simp only [Canvas.membersAt, Store.members?, hs.node a rfl]
    rfl

theorem Stands.get?_membersAt (hs : c.Stands h ts) (k : Text) :
    Keyed.get? (c.membersAt h) k = (Keyed.get? ts k).map Tree.cell := by
  rw [hs.membersAt, Branches.get?_cells]

theorem Stands.lt_size (hs : c.Stands h ts) {a : Nat} (ha : a ∈ ts.places) : a < c.store.size :=
  (List.mem_flatMap.mp ha).elim fun m h => (hs.standing m h.1).lt_size h.2

theorem Stands.push (hs : c.Stands h ts) (n : Node) :
    Stands { c with store := c.store.push n } h ts where
  output := hs.output
  node a ha := Store.Extends.push _ n _ _ (hs.node a ha)
  standing m hm := (hs.standing m hm).mono (.push _ n)
  outside := hs.outside

theorem stands_put (hs : c.Stands h ts) (k : Text) {T : Tree} (hT : T.Standing c.store)
    (hout : ∀ a, h = .node a → a ∉ T.places) :
    (c.put h k T.cell).Stands h (Keyed.put ts k T) := by
  have hstand : ∀ m ∈ Keyed.put ts k T, m.2.Standing c.store ∧
      ∀ a, h = .node a → a ∉ m.2.places := by
    intro m hm
    rcases Keyed.mem_put hm with hm | rfl
    · exact ⟨hs.standing m hm, fun a ha hmem =>
        hs.outside a ha (List.mem_flatMap.mpr ⟨m, hm, hmem⟩)⟩
    · exact ⟨hT, hout⟩
  have houtside : ∀ a, h = .node a → a ∉ Branches.places (Keyed.put ts k T) := fun a ha hmem =>
    let ⟨m, hm, hmem⟩ := List.mem_flatMap.mp hmem
    (hstand m hm).2 a ha hmem
  cases h with
  | output =>
    refine ⟨fun _ => ?_, nofun, fun m hm => (hstand m hm).1, nofun⟩
    rw [Canvas.put, Branches.cells_put, hs.output rfl]
  | node b =>
    have hmembers := hs.membersAt
    refine ⟨nofun, fun a ha => ?_, fun m hm => ?_, houtside⟩
    · cases ha
      have hlt := Store.lt_size_of_get? (hs.node b rfl)
      simp only [Canvas.put, Store.get?_put, hlt, hmembers, Branches.cells_put, and_self, if_true]
    · refine (hstand m hm).1.of_agree fun a n ha hn => ?_
      have hne : ¬ (b = a ∧ b < c.store.size) := fun e =>
        (hstand m hm).2 b rfl (e.1 ▸ ha)
      rw [Canvas.put, Store.get?_put, if_neg hne, hn]

theorem only_put (c : Canvas) (h : Holder) (k : Text) (x : Cell) : Only c (c.put h k x) h [] := by
  cases h with
  | output => exact ⟨Nat.le_refl _, fun _ _ _ _ => rfl, fun hh => absurd rfl hh⟩
  | node b =>
    refine ⟨by simp [Canvas.put], fun a ha hh _ => ?_, fun _ => rfl⟩
    have hne : ¬ (b = a ∧ b < c.store.size) := fun e => hh (by rw [e.1])
    rw [Canvas.put, Store.get?_put, if_neg hne]

theorem size_put (c : Canvas) (h : Holder) (k : Text) (x : Cell) :
    (c.put h k x).store.size = c.store.size := by
  cases h <;> simp [Canvas.put]

theorem only_push (c : Canvas) (h : Holder) (n : Node) :
    Only c { c with store := c.store.push n } h [] :=
  ⟨by simp, fun a ha _ _ => (Store.Extends.push c.store n).get?_eq ha, fun _ => rfl⟩

theorem only_make (c : Canvas) (h : Holder) (k : Text) (n : Node) : Only c (c.make h k n) h [] :=
  (only_push c h n).trans (only_put _ h k _)

theorem size_make (c : Canvas) (h : Holder) (k : Text) (n : Node) :
    (c.make h k n).store.size = c.store.size + 1 := by
  rw [make, size_put]
  simp

/-- A node that is made for a tree. -/
theorem stands_make (hs : c.Stands h ts) (k : Text) {n : Node} {T : Tree}
    (hcell : T.cell = .ref c.store.size) (hT : T.Standing (c.store.push n))
    (hout : ∀ a, h = .node a → a ∉ T.places) : (c.make h k n).Stands h (Keyed.put ts k T) := by
  rw [make, ← hcell]
  exact stands_put (hs.push n) k hT hout

/-- What is written into is there. -/
theorem Stands.holder_lt (hs : c.Stands h ts) {a : Nat} (ha : h = .node a) : a < c.store.size :=
  Store.lt_size_of_get? (hs.node a ha)

theorem Stands.get? (hs : c.Stands h ts) {k : Text} {T : Tree} (hT : Keyed.get? ts k = some T) :
    T.Standing c.store :=
  hs.standing _ (Keyed.mem_of_get? hT)

/-! ### The nodes on the way -/

open Branches (listPlace objectPlace firstPlace)

theorem listUnder_stands (hs : c.Stands h ts) {k : Text} (hopen : Branches.Open (Keyed.get? ts k)) :
    let place := listPlace c.store.size ts k
    (c.listUnder h k).1 = place.1 ∧ (c.listUnder h k).2.store.size = place.2 ∧
      (c.listUnder h k).2.Stands h (Keyed.put ts k (.list place.1 (ts.elementsUnder k))) ∧
      Only c (c.listUnder h k).2 h [] := by
  have hmade := stands_make hs k (n := .list []) (T := .list c.store.size []) rfl
    (by simp [get?_push_self])
    (fun a ha hmem => Nat.ne_of_lt (hs.holder_lt ha) (by simpa using hmem))
  have honly := only_make c h k (.list [])
  have hsize := size_make c h k (.list [])
  unfold listUnder listPlace Branches.elementsUnder
  rw [hs.get?_membersAt]
  cases hT : Keyed.get? ts k with
  | none => exact ⟨rfl, hsize, hmade, honly⟩
  | some T =>
    have hstand := hs.get? hT
    cases T with
    | leaf d v =>
      obtain ⟨x, rfl, -⟩ := hopen d v hT
      exact ⟨rfl, hsize, hmade, honly⟩
    | list a xs =>
      rw [Tree.standing_list] at hstand
      simp only [Option.map_some, Tree.cell_list, Store.elements?, hstand.1, Option.isSome_some,
        if_true, Keyed.put_of_get? hT]
      exact ⟨trivial, trivial, hs, .refl c h []⟩
    | obj a ms =>
      rw [Tree.standing_obj] at hstand
      simp only [Option.map_some, Tree.cell_obj, Store.elements?, hstand.1, Option.isSome_none,
        Bool.false_eq_true, if_false]
      exact ⟨trivial, hsize, hmade, honly⟩

theorem objectUnder_stands (hs : c.Stands h ts) {k : Text}
    (hopen : Branches.Open (Keyed.get? ts k)) :
    let place := objectPlace c.store.size ts k
    (c.objectUnder h k).1 = place.1 ∧ (c.objectUnder h k).2.store.size = place.2 ∧
      (c.objectUnder h k).2.Stands h (Keyed.put ts k (.obj place.1 (ts.under k))) ∧
      Only c (c.objectUnder h k).2 h [] := by
  have hmade := stands_make hs k (n := .obj []) (T := .obj c.store.size []) rfl
    (by simp [get?_push_self, Branches.cells])
    (fun a ha hmem => Nat.ne_of_lt (hs.holder_lt ha) (by simpa [Branches.places] using hmem))
  have honly := only_make c h k (.obj [])
  have hsize := size_make c h k (.obj [])
  unfold objectUnder objectPlace Branches.under
  rw [hs.get?_membersAt]
  cases hT : Keyed.get? ts k with
  | none => exact ⟨rfl, hsize, hmade, honly⟩
  | some T =>
    have hstand := hs.get? hT
    cases T with
    | leaf d v =>
      obtain ⟨x, rfl, -⟩ := hopen d v hT
      exact ⟨rfl, hsize, hmade, honly⟩
    | list a xs =>
      rw [Tree.standing_list] at hstand
      simp only [Option.map_some, Tree.cell_list, Store.members?, hstand.1, Option.isSome_none,
        Bool.false_eq_true, if_false]
      exact ⟨trivial, hsize, hmade, honly⟩
    | obj a ms =>
      rw [Tree.standing_obj] at hstand
      simp only [Option.map_some, Tree.cell_obj, Store.members?, hstand.1, Option.isSome_some,
        if_true, Keyed.put_of_get? hT]
      exact ⟨trivial, trivial, hs, .refl c h []⟩

/-- What is left of branches when one of them is taken out: other branches do not lead to its nodes.
-/
theorem nodup_put {k : Text} {T : Tree} (h : (Branches.places (Keyed.put ts k T)).Nodup) :
    T.places.Nodup ∧ ∃ before after : Branches,
      (∀ U, Keyed.put ts k U = before ++ (k, U) :: after) ∧
      ∀ m ∈ before ++ after, ∀ a ∈ m.2.places, a ∉ T.places := by
  obtain ⟨before, after, hput, -⟩ := Keyed.exists_put ts k
  rw [hput, Branches.places, List.flatMap_append, List.flatMap_cons, List.nodup_append,
    List.nodup_append] at h
  obtain ⟨-, ⟨hT, -, hafter⟩, hbefore⟩ := h
  refine ⟨hT, before, after, hput, fun m hm a ha haT => ?_⟩
  rcases List.mem_append.mp hm with hm | hm
  · exact hbefore a (List.mem_flatMap.mpr ⟨m, hm, ha⟩) a (List.mem_append_left _ haT) rfl
  · exact hafter a haT a (List.mem_flatMap.mpr ⟨m, hm, ha⟩) rfl

/-- Branches stand with another tree under a key, if what was done in between only changed nodes of
the tree that was there. -/
theorem Stands.replace {k : Text} {T U : Tree} {g : Holder} (hs : c.Stands h (Keyed.put ts k T))
    (hnodup : (Branches.places (Keyed.put ts k T)).Nodup) (honly : Only c c' g ps)
    (hg : ∃ a, g = .node a ∧ a ∈ T.places) (hps : ∀ a ∈ ps, a ∈ T.places)
    (hcell : U.cell = T.cell) (hU : U.Standing c'.store)
    (hnew : ∀ a ∈ U.places, a ∈ T.places ∨ h ≠ .node a) : c'.Stands h (Keyed.put ts k U) := by
  obtain ⟨-, before, after, hput, hother⟩ := nodup_put hnodup
  obtain ⟨b, rfl, hb⟩ := hg
  have hcells : Branches.cells (Keyed.put ts k U) = Branches.cells (Keyed.put ts k T) := by
    rw [Branches.cells_put, Branches.cells_put, hcell]
  -- What is not a place of the old tree was not touched.
  have hsame : ∀ a, a < c.store.size → a ∉ T.places → c'.store.get? a = c.store.get? a :=
    fun a ha haT => honly.same a ha (by rintro ⟨rfl⟩; exact haT hb) fun hp => haT (hps a hp)
  have hmem : ∀ V : Tree, ∀ m ∈ before ++ after, m ∈ Keyed.put ts k V := fun V m hm => by
    rw [hput]
    simp only [List.mem_append, List.mem_cons] at hm ⊢
    exact hm.imp_right .inr
  have hplaceT : ∀ a ∈ T.places, a ∈ Branches.places (Keyed.put ts k T) := fun a ha =>
    List.mem_flatMap.mpr ⟨(k, T), by rw [hput]; simp, ha⟩
  have hcases : ∀ m ∈ Keyed.put ts k U, m ∈ before ++ after ∨ m = (k, U) := fun m hm => by
    rw [hput] at hm
    simp only [List.mem_append, List.mem_cons] at hm ⊢
    tauto
  refine ⟨fun hh => ?_, fun a ha => ?_, fun m hm => ?_, fun a ha hmem' => ?_⟩
  · rw [honly.members (by simp), hcells]
    exact hs.output hh
  · have hlt := hs.holder_lt ha
    rw [hsame a hlt fun haT => hs.outside a ha (hplaceT a haT), hcells]
    exact hs.node a ha
  · rcases hcases m hm with hm | rfl
    · have hstand := hs.standing m (hmem T m hm)
      exact hstand.of_agree fun a n ha hn =>
        (hsame a (hstand.lt_size ha) (hother m hm a ha)).trans hn
    · exact hU
  · obtain ⟨m, hm, hmem'⟩ := List.mem_flatMap.mp hmem'
    rcases hcases m hm with hm | rfl
    · exact hs.outside a ha (List.mem_flatMap.mpr ⟨m, hmem T m hm, hmem'⟩)
    · rcases hnew a hmem' with haT | hne
      · exact hs.outside a ha (hplaceT a haT)
      · exact hne ha

theorem firstObject_stands {k : Text} {a : Nat} {xs : List Tree}
    (hs : c.Stands h (Keyed.put ts k (.list a xs)))
    (hnodup : (Branches.places (Keyed.put ts k (.list a xs))).Nodup)
    (hopen : Branches.Open xs.head?) :
    let place := firstPlace c.store.size xs
    (c.firstObject a).1 = place.1 ∧ (c.firstObject a).2.store.size = place.2 ∧
      (c.firstObject a).2.Stands h
        (Keyed.put ts k (.list a (.obj place.1 (Branches.first xs) :: xs.tail))) ∧
      Only c (c.firstObject a).2 (.node a) [] := by
  have hlist : (Tree.list a xs).Standing c.store := hs.get? (Keyed.get?_put_self ts k _)
  rw [Tree.standing_list] at hlist
  have ha : a < c.store.size := Store.lt_size_of_get? hlist.1
  have hcells : (c.store.elements? (.ref a)).getD [] = xs.map Tree.cell := by
    simp [Store.elements?, hlist.1]
  obtain ⟨hT, -⟩ := nodup_put hnodup
  rw [Tree.places_list] at hT
  have honly : Only c { c with
      store := (c.store.push (.obj [])).put a
        (.list (.ref c.store.size :: (xs.map Tree.cell).tail)) }
      (.node a) [] := by
    refine ⟨by simp, fun b hb hne _ => ?_, fun _ => rfl⟩
    have hab : a ≠ b := fun e => hne (by rw [e])
    rw [Store.get?_put, if_neg fun e => hab e.1, Store.get?_push, if_neg (Nat.ne_of_lt hb)]
  have hmade : Stands { c with
      store := (c.store.push (.obj [])).put a
        (.list (.ref c.store.size :: (xs.map Tree.cell).tail)) }
      h (Keyed.put ts k (.list a (.obj c.store.size [] :: xs.tail))) := by
    refine hs.replace hnodup honly ⟨a, rfl, by simp⟩ (by simp) rfl ?_ fun b hb => ?_
    · rw [Tree.standing_list]
      refine ⟨?_, List.forall_mem_cons.mpr ⟨?_, fun t ht => ?_⟩⟩
      · rw [Store.get?_put, if_pos ⟨rfl, by rw [Store.size_push]; omega⟩, List.map_cons,
          List.map_tail]
        rfl
      · rw [Tree.standing_obj, Store.get?_put, if_neg fun e => Nat.ne_of_lt ha e.1, get?_push_self]
        exact ⟨rfl, by simp⟩
      · have htxs := List.mem_of_mem_tail ht
        refine (hlist.2 t htxs).of_agree fun b n hb hn => ?_
        have hab : a ≠ b := by
          rintro rfl
          exact (List.nodup_cons.mp hT).1 (List.mem_flatMap.mpr ⟨t, htxs, hb⟩)
        rw [Store.get?_put, if_neg fun e => hab e.1]
        exact Store.Extends.push _ _ _ _ hn
    · simp only [Tree.places_list, List.flatMap_cons, Tree.places_obj, Branches.places,
        List.flatMap_nil, List.mem_cons, List.mem_append, List.not_mem_nil, or_false] at hb
      obtain rfl | rfl | hb := hb
      · exact .inl (by simp)
      · exact .inr fun e => Nat.lt_irrefl _ (hs.holder_lt e)
      · refine .inl ?_
        obtain ⟨t, ht, hb⟩ := List.mem_flatMap.mp hb
        rw [Tree.places_list]
        exact List.mem_cons_of_mem _ (List.mem_flatMap.mpr ⟨t, List.mem_of_mem_tail ht, hb⟩)
  unfold firstObject firstPlace Branches.first
  simp only [hcells, List.head?_map]
  have hsize : ((c.store.push (.obj [])).put a
      (.list (.ref c.store.size :: (xs.map Tree.cell).tail))).size = c.store.size + 1 := by simp
  cases xs with
  | nil => exact ⟨rfl, hsize, hmade, honly⟩
  | cons t xs =>
    cases t with
    | leaf d v =>
      obtain ⟨x, rfl, -⟩ := hopen d v rfl
      exact ⟨rfl, hsize, hmade, honly⟩
    | list b ys =>
      have hb := hlist.2 _ List.mem_cons_self
      rw [Tree.standing_list] at hb
      simp only [List.head?_cons, Option.map_some, Tree.cell_list, Store.members?, hb.1,
        Option.isSome_none, Bool.false_eq_true, if_false]
      exact ⟨trivial, hsize, hmade, honly⟩
    | obj b ms =>
      have hb := hlist.2 _ List.mem_cons_self
      rw [Tree.standing_obj] at hb
      simp only [List.head?_cons, Option.map_some, Tree.cell_obj, Store.members?, hb.1,
        Option.isSome_some, if_true]
      exact ⟨trivial, trivial, hs, .refl c _ []⟩

theorem Stands.enter_object {k : Text} {a : Nat} {ms : Branches}
    (hs : c.Stands h (Keyed.put ts k (.obj a ms))) (ha : a ∉ ms.places) :
    c.Stands (.node a) ms := by
  have hobj := hs.get? (Keyed.get?_put_self ts k _)
  rw [Tree.standing_obj] at hobj
  exact ⟨nofun, fun b hb => by cases hb; exact hobj.1, hobj.2, fun b hb => by cases hb; exact ha⟩

theorem Stands.enter_first {k : Text} {a b : Nat} {ms : Branches} {xs : List Tree}
    (hs : c.Stands h (Keyed.put ts k (.list a (.obj b ms :: xs)))) (hb : b ∉ ms.places) :
    c.Stands (.node b) ms := by
  have hlist := hs.get? (Keyed.get?_put_self ts k _)
  rw [Tree.standing_list] at hlist
  have hobj := hlist.2 _ List.mem_cons_self
  rw [Tree.standing_obj] at hobj
  exact ⟨nofun, fun d hd => by cases hd; exact hobj.1, hobj.2, fun d hd => by cases hd; exact hb⟩

/-- Going on in a node that was there or is new. -/
theorem Only.enter {a : Nat} (honly : Only c c' h qs) (honly' : Only c' c'' (.node a) ps)
    (ha : a ∈ qs ∨ c.store.size ≤ a) (hps : ∀ b ∈ ps, b ∈ qs ∨ c.store.size ≤ b) :
    Only c c'' h qs where
  size_le := Nat.le_trans honly.size_le honly'.size_le
  same b hb hh hq := by
    have hout : ∀ d, d ∈ qs ∨ c.store.size ≤ d → b ≠ d := by
      rintro d (hd | hd) rfl
      · exact hq hd
      · exact Nat.not_le.mpr hb hd
    rw [honly'.same b (Nat.lt_of_lt_of_le hb honly.size_le)
      (fun e => hout a ha (Holder.node.inj e).symm) fun hp => hout b (hps b hp) rfl,
      honly.same b hb hh hq]
  members hh := (honly'.members nofun).trans (honly.members hh)

theorem Only.rooted {x : Seed} (honly : Only c c' h ps) (hx : x.Rooted c.store)
    (hneeds : ∀ a, x.Needs a → h ≠ .node a ∧ a ∉ ps) : x.Rooted c'.store :=
  hx.of_agree honly.size_le fun a ha =>
    honly.same a (hx.lt_size ha) (hneeds a ha).1 (hneeds a ha).2

/-- After a write inside of a tree the branches around it stand again. -/
theorem Stands.around {k : Text} {T U : Tree} {a : Nat} {w l m : List Nat}
    (hs : c'.Stands h (Keyed.put ts k T)) (hnodup : (Branches.places (Keyed.put ts k T)).Nodup)
    (honly : Only c c' h ts.places) (honly' : Only c' c'' (.node a) l)
    (hentered : ∀ b ∈ T.places, b ∈ ts.places ∨ c.store.size ≤ b) (ha : a ∈ T.places)
    (hl : ∀ b ∈ l, b ∈ T.places) (hcell : U.cell = T.cell) (hU : U.Standing c''.store)
    (hUplace : ∀ b ∈ U.places, b ∈ T.places ∨ b ∈ m)
    (hm : ∀ b ∈ m, b ∈ l ++ w ∨ c'.store.size ≤ b) (hseed : ∀ b ∈ w, h ≠ .node b) :
    c''.Stands h (Keyed.put ts k U) ∧ Only c c'' h ts.places := by
  refine ⟨hs.replace hnodup honly' ⟨a, rfl, ha⟩ hl hcell hU fun b hb => ?_,
    honly.enter honly' (hentered a ha) fun b hb => hentered b (hl b hb)⟩
  rcases hUplace b hb with hb | hb
  · exact .inl hb
  · rcases hm b hb with hb | hb
    · exact (List.mem_append.mp hb).imp (hl b) (hseed b)
    · exact .inr fun e => Nat.not_le.mpr (hs.holder_lt e) hb

/-! ### Writing along a target -/

/-- A seed can be written among branches: these stand and lead to no node twice, and to none that
the seed needs. -/
structure Ready (c : Canvas) (h : Holder) (ts : Branches) (x : Seed) : Prop where
  stands : c.Stands h ts
  nodup : ts.places.Nodup
  rooted : x.Rooted c.store
  apart : ∀ a, x.Needs a → h ≠ .node a ∧ a ∉ ts.places

/-- What was planted stands, and nothing but the nodes of the branches was changed. -/
structure Planted (c c' : Canvas) (h : Holder) (ts : Branches) (planted : Branches × Nat) :
    Prop where
  stands : c'.Stands h planted.1
  size_eq : c'.store.size = planted.2
  only : Only c c' h ts.places

namespace Ready

variable {x : Seed} {k : Text} {T : Tree} {new : List Nat} {next : Nat}

theorem nodup_under (hr : c.Ready h ts x) (k : Text) : (ts.placesUnder k).Nodup :=
  hr.nodup.sublist (ts.placesUnder_sublist k)

theorem lt_under (hr : c.Ready h ts x) (k : Text) : ∀ a ∈ ts.placesUnder k, a < c.store.size :=
  fun _ ha => hr.stands.lt_size ((ts.placesUnder_sublist k).subset ha)

/-- What is entered on the way was there or is new, so it is not the seed's. -/
theorem not_mem_way (hr : c.Ready h ts x)
    (hin : Branches.Entered c.store.size (ts.placesUnder k) new next) :
    ∀ a, x.Needs a → a ∉ new :=
  fun a ha => hin.not_mem ⟨hr.rooted.lt_size ha, fun hmem =>
    (hr.apart a ha).2 ((ts.placesUnder_sublist k).subset hmem)⟩

theorem nodup_put (hr : c.Ready h ts x)
    (hin : Branches.Entered c.store.size (ts.placesUnder k) T.places next) :
    (Branches.places (Keyed.put ts k T)).Nodup := by
  have hin' : Branches.Entered c.store.size (ts.placesUnder k ++ []) T.places next := by
    rwa [List.append_nil]
  exact (Branches.entered_put hr.nodup (fun a ha => hr.stands.lt_size ha)
    (fun a ha => absurd ha List.not_mem_nil) hin').nodup

theorem rooted_of_only (hr : c.Ready h ts x) (honly : Only c c' h []) : x.Rooted c'.store :=
  honly.rooted hr.rooted fun a ha => ⟨(hr.apart a ha).1, List.not_mem_nil⟩

theorem seed_ne (hr : c.Ready h ts x) : ∀ a ∈ x.tree.places, h ≠ .node a :=
  fun a ha => (hr.apart a (.inr ha)).1

end Ready

section

variable {x : Seed} {k : Text}

theorem write_field (hr : c.Ready h ts x) :
    Planted c (c.write h [.field k] x.tree.cell) h ts
      (Branches.plant c.store.size ts [.field k] x) where
  stands := stands_put hr.stands k hr.rooted.standing fun a ha hmem => hr.seed_ne a hmem ha
  size_eq := size_put c h k _
  only := (only_put c h k _).mono fun _ ha => absurd ha List.not_mem_nil

/-- A list that is written to the end of a list takes its place. -/
theorem write_array_list (hsound : x.Sound) (hr : c.Ready h ts x)
    (hopen : Branches.Open (Keyed.get? ts k)) {ys : List Tree} (hys : x.elements = some ys) :
    Planted c (c.write h [.array k] x.tree.cell) h ts
      (Branches.plant c.store.size ts [.array k] x) := by
  obtain ⟨ha, hsize, hs, honly⟩ := listUnder_stands hr.stands hopen
  rw [write, Branches.plant]
  generalize c.listUnder h k = u at *
  generalize listPlace c.store.size ts k = place at *
  obtain ⟨a, c'⟩ := u
  obtain ⟨b, mid⟩ := place
  dsimp only at ha hsize hs honly ⊢
  subst ha
  subst hsize
  have hx := hr.rooted_of_only honly
  rw [hx.elements, hys]
  have hstand : (Tree.list c'.store.size ys).Standing
      (c'.store.push (.list (ys.map Tree.cell))) :=
    (Tree.standing_list _ _ _).mpr ⟨get?_push_self _ _, fun y hy =>
      (hx.parts hys y hy).mono (.push _ _)⟩
  have hmade := stands_make hs k (n := .list (ys.map Tree.cell)) rfl hstand fun b hb hmem => by
    rw [Tree.places_list, List.mem_cons] at hmem
    rcases hmem with rfl | hmem
    · exact Nat.lt_irrefl _ (hs.holder_lt hb)
    · exact hr.seed_ne b (hsound.within hys b hmem) hb
  rw [Keyed.put_put_self] at hmade
  exact ⟨hmade, size_make c' h k _, (honly.trans (only_make c' h k _)).mono (by simp)⟩

/-- Anything else is put after the elements of the list. -/
theorem write_array_other (hr : c.Ready h ts x) (hopen : Branches.Open (Keyed.get? ts k))
    (hys : x.elements = none) :
    Planted c (c.write h [.array k] x.tree.cell) h ts
      (Branches.plant c.store.size ts [.array k] x) := by
  obtain ⟨ha, hsize, hs, honly⟩ := listUnder_stands hr.stands hopen
  have hin := Branches.entered_list c.store.size (hr.nodup_under k)
  have hlist := hs.get? (Keyed.get?_put_self ts k _)
  rw [Tree.standing_list] at hlist
  rw [write, Branches.plant]
  generalize c.listUnder h k = u at *
  generalize listPlace c.store.size ts k = place at *
  obtain ⟨a, c'⟩ := u
  obtain ⟨b, mid⟩ := place
  dsimp only at ha hsize hs honly hin hlist ⊢
  subst ha
  subst hsize
  have hx := hr.rooted_of_only honly
  have hnot := hr.not_mem_way hin
  have hold : (c'.store.elements? (.ref a)).getD [] = (ts.elementsUnder k).map Tree.cell := by
    simp [Store.elements?, hlist.1]
  rw [hx.elements, hys, Option.map_none, hold]
  have honly' : Only c' { c' with
      store := c'.store.put a (.list ((ts.elementsUnder k).map Tree.cell ++ [x.tree.cell])) }
      (.node a) [] := by
    refine ⟨by simp, fun b hb hne _ => ?_, fun _ => rfl⟩
    rw [get?_put_of_ne _ fun e => hne (by rw [e])]
  -- The node that changes is in no element and is not the seed's.
  have hother : ∀ t ∈ ts.elementsUnder k ++ [x.tree], a ∉ t.places ∧ t.Standing c'.store := by
    intro t ht
    rcases List.mem_append.mp ht with ht | ht
    · have hnodup := hin.nodup
      rw [Tree.places_list, List.nodup_cons] at hnodup
      exact ⟨fun hmem => hnodup.1 (List.mem_flatMap.mpr ⟨t, ht, hmem⟩), hlist.2 t ht⟩
    · cases List.mem_singleton.mp ht
      exact ⟨fun hmem => hnot a (.inr hmem) (by simp), hx.standing⟩
  have hstand : (Tree.list a (ts.elementsUnder k ++ [x.tree])).Standing
      (c'.store.put a (.list ((ts.elementsUnder k).map Tree.cell ++ [x.tree.cell]))) := by
    rw [Tree.standing_list, List.map_append, List.map_singleton]
    refine ⟨get?_put_self _ (Store.lt_size_of_get? hlist.1), fun t ht => ?_⟩
    exact (hother t ht).2.of_agree fun b n hb hn =>
      (get?_put_of_ne _ fun e : a = b => (hother t ht).1 (e ▸ hb)).trans hn
  have hstands := hs.around (hr.nodup_put hin) (honly.mono (by simp)) honly' hin.way
    (U := .list a (ts.elementsUnder k ++ [x.tree])) (w := x.tree.places) (m := x.tree.places)
      (by simp) (by simp) rfl hstand
    (fun b hb => by
      rw [Tree.places_list, List.flatMap_append, List.flatMap_singleton] at hb
      rw [Tree.places_list]
      simp only [List.mem_cons, List.mem_append] at hb ⊢
      tauto)
    (fun b hb => .inl (List.mem_append_right _ hb)) hr.seed_ne
  exact ⟨hstands.1, by simp, hstands.2⟩

variable {s : Slot} {rest : Target}

/-- The rest of a target is written inside of a node on the way. -/
def Goes (s : Slot) (rest : Target) (x : Seed) : Prop :=
  ∀ (c : Canvas) (a : Nat) (ms : Branches), Branches.Clear (s :: rest) ms → c.Ready (.node a) ms x →
    Planted c (c.write (.node a) (s :: rest) x.tree.cell) (.node a) ms
      (Branches.plant c.store.size ms (s :: rest) x)

/-- A write goes on in the object under a key. -/
theorem write_object (hsound : x.Sound) (hr : c.Ready h ts x)
    (hclear : Branches.Clear (.field k :: s :: rest) ts) (hgoes : Goes s rest x) :
    Planted c (c.write h (.field k :: s :: rest) x.tree.cell) h ts
      (Branches.plant c.store.size ts (.field k :: s :: rest) x) := by
  rw [Branches.clear_field] at hclear
  obtain ⟨ha, hsize, hs, honly⟩ := objectUnder_stands hr.stands hclear.1
  have hin := Branches.entered_object c.store.size (hr.nodup_under k)
  rw [write, Branches.plant]
  case x_3 => simp
  generalize c.objectUnder h k = u at *
  generalize objectPlace c.store.size ts k = place at *
  obtain ⟨a, c'⟩ := u
  obtain ⟨b, mid⟩ := place
  dsimp only at ha hsize hs honly hin ⊢
  subst ha
  subst hsize
  have hx := hr.rooted_of_only honly
  have hnot := hr.not_mem_way hin
  have hnodup := hin.nodup
  rw [Tree.places_obj, List.nodup_cons] at hnodup
  have hinside : c'.Ready (.node a) (ts.under k) x :=
    ⟨hs.enter_object hnodup.1, hnodup.2, hx, fun b hb => by
      have hb := hnot b hb
      rw [Tree.places_obj, List.mem_cons, not_or] at hb
      exact ⟨fun e => hb.1 (Holder.node.inj e).symm, hb.2⟩⟩
  obtain ⟨hs', hsize', honly'⟩ := hgoes c' a (ts.under k) hclear.2 hinside
  have hplace := Branches.entered_plant hsound (s :: rest) hnodup.2
    (fun b hb => hinside.stands.lt_size hb)
    fun b hb => ⟨hx.lt_size (.inr hb), (hinside.apart b (.inr hb)).2⟩
  generalize Branches.plant c'.store.size (ts.under k) (s :: rest) x = r at *
  obtain ⟨ns, next⟩ := r
  have hstands := hs.around (hr.nodup_put hin) (honly.mono (by simp)) honly' hin.way
    (U := .obj a ns) (w := x.tree.places) (m := ns.places) (by simp) (fun b hb => by simp [hb]) rfl
    ((Tree.standing_obj a ns _).mpr ⟨hs'.node a rfl, hs'.standing⟩)
    (fun b hb => by
      rw [Tree.places_obj] at hb ⊢
      rcases List.mem_cons.mp hb with rfl | hb
      · exact .inl List.mem_cons_self
      · exact .inr hb)
    (fun b hb => (hplace.place b hb).imp_right fun hb => hb.1) hr.seed_ne
  exact ⟨hstands.1, hsize', hstands.2⟩

/-- Where a carrier was written into, the list around it stands again. -/
theorem standing_carrier {a b : Nat} {ms ns : Branches} {xs : List Tree}
    (hlist : (Tree.list a (.obj b ms :: xs)).Standing c.store)
    (hnodup : (Tree.list a (.obj b ms :: xs)).places.Nodup)
    (honly : Only c c' (.node b) ms.places) (hs : c'.Stands (.node b) ns) :
    (Tree.list a (.obj b ns :: xs)).Standing c'.store := by
  rw [Tree.standing_list] at hlist ⊢
  simp only [Tree.places_list, List.flatMap_cons, Tree.places_obj, List.nodup_cons,
    List.cons_append, List.mem_cons, List.mem_append, not_or, List.nodup_append] at hnodup
  obtain ⟨⟨hab, ha, -⟩, ⟨-, hb⟩, -, -, hapart⟩ := hnodup
  have hsame : ∀ d, d < c.store.size → b ≠ d → d ∉ ms.places →
      c'.store.get? d = c.store.get? d := fun d hd hne hmem =>
    honly.same d hd (fun e => hne (Holder.node.inj e)) hmem
  refine ⟨?_, List.forall_mem_cons.mpr
    ⟨(Tree.standing_obj _ _ _).mpr ⟨hs.node b rfl, hs.standing⟩, fun t ht => ?_⟩⟩
  · rw [hsame a (Store.lt_size_of_get? hlist.1) (Ne.symm hab) ha, hlist.1]
    rfl
  · have hstand := hlist.2 t (List.mem_cons_of_mem _ ht)
    refine hstand.of_agree fun d n hd hn => ?_
    have hdt : d ∈ xs.flatMap Tree.places := List.mem_flatMap.mpr ⟨t, ht, hd⟩
    rw [hsame d (hstand.lt_size hd) (fun e => hb (e ▸ hdt)) fun hmem => hapart d hmem d hdt rfl, hn]

/-- A write goes on in the first element of the list under a key. -/
theorem write_carrier (hsound : x.Sound) (hr : c.Ready h ts x)
    (hclear : Branches.Clear (.array k :: s :: rest) ts) (hgoes : Goes s rest x) :
    Planted c (c.write h (.array k :: s :: rest) x.tree.cell) h ts
      (Branches.plant c.store.size ts (.array k :: s :: rest) x) := by
  rw [Branches.Clear] at hclear
  obtain ⟨hopen, hclear⟩ := hclear
  obtain ⟨hopen', hclear⟩ := hclear (List.cons_ne_nil s rest)
  obtain ⟨ha, hsize, hs, honly⟩ := listUnder_stands hr.stands hopen
  have hin := Branches.entered_list c.store.size (hr.nodup_under k)
  obtain ⟨hb, hsize', hs', honly'⟩ := firstObject_stands hs (hr.nodup_put hin) hopen'
  have hin' := Branches.entered_carrier c.store.size (hr.nodup_under k) (hr.lt_under k)
  rw [write, Branches.plant]
  case x_3 => simp
  generalize c.listUnder h k = u at *
  generalize listPlace c.store.size ts k = place at *
  obtain ⟨a, c₁⟩ := u
  obtain ⟨a', mid⟩ := place
  dsimp only at ha hsize hs honly hin hb hsize' hs' honly' hin' ⊢
  subst ha
  subst hsize
  generalize c₁.firstObject a = u at *
  generalize ts.elementsUnder k = xs at *
  generalize firstPlace c₁.store.size xs = place at *
  obtain ⟨b, c₂⟩ := u
  obtain ⟨b', mid⟩ := place
  dsimp only at hb hsize' hs' honly' hin' ⊢
  subst hb
  subst hsize'
  have hplaces : (Tree.list a (.obj b (Branches.first xs) :: xs.tail)).places =
      [a, b] ++ ((Branches.first xs).places ++ xs.tail.flatMap Tree.places) := by simp
  rw [← hplaces] at hin'
  have hnodup := hin'.nodup
  rw [hplaces, List.nodup_append, List.nodup_append] at hnodup
  obtain ⟨-, ⟨hfirst, -, -⟩, hapart⟩ := hnodup
  have hway : Only c c₂ h ts.places :=
    (honly.mono (by simp)).enter honly' (hin'.way a (by simp)) (by simp)
  have hinside : c₂.Ready (.node b) (Branches.first xs) x := by
    refine ⟨hs'.enter_first fun hmem => hapart b (by simp) b (by simp [hmem]) rfl, hfirst,
      hway.rooted hr.rooted hr.apart, fun d hd => ?_⟩
    have hd := hr.not_mem_way hin' d hd
    rw [hplaces] at hd
    simp only [List.mem_append, List.mem_cons, not_or] at hd
    exact ⟨fun e => hd.1.2.1 (Holder.node.inj e).symm, hd.2.1⟩
  obtain ⟨hs₃, hsize₃, honly₃⟩ := hgoes c₂ b (Branches.first xs) hclear hinside
  have hplace := Branches.entered_plant hsound (s :: rest) hfirst
    (fun d hd => hinside.stands.lt_size hd)
    fun d hd => ⟨hinside.rooted.lt_size (.inr hd), (hinside.apart d (.inr hd)).2⟩
  generalize c₂.write (.node b) (s :: rest) x.tree.cell = c₃ at *
  generalize Branches.plant c₂.store.size (Branches.first xs) (s :: rest) x = r at *
  obtain ⟨ns, next⟩ := r
  have hstands := hs'.around (hr.nodup_put hin') hway honly₃ hin'.way
    (U := .list a (.obj b ns :: xs.tail)) (w := x.tree.places) (m := ns.places) (by simp)
      (fun d hd => by simp [hd]) rfl
    (standing_carrier (hs'.get? (Keyed.get?_put_self ts k _)) hin'.nodup honly₃ hs₃)
    (fun d hd => by
      simp only [Tree.places_list, List.flatMap_cons, Tree.places_obj, List.mem_cons,
        List.mem_append] at hd ⊢
      tauto)
    (fun d hd => (hplace.place d hd).imp_right fun hd => hd.1) hr.seed_ne
  exact ⟨hstands.1, hsize₃, hstands.2⟩

end

/-- A write does what planting tells. -/
theorem write_stands {x : Seed} (hsound : x.Sound) (target : Target) (hr : c.Ready h ts x)
    (hclear : Branches.Clear target ts) :
    Planted c (c.write h target x.tree.cell) h ts (Branches.plant c.store.size ts target x) := by
  induction target generalizing c h ts with
  | nil => exact ⟨hr.stands, rfl, .refl c h _⟩
  | cons slot rest ih =>
    cases slot with
    | field k =>
      cases rest with
      | nil => exact write_field hr
      | cons s rest => exact write_object hsound hr hclear fun _ _ _ hclear hr => ih hr hclear
    | array k =>
      cases rest with
      | nil =>
        cases hys : x.elements with
        | some ys => exact write_array_list hsound hr hclear.1 hys
        | none => exact write_array_other hr hclear.1 hys
      | cons s rest => exact write_carrier hsound hr hclear fun _ _ _ hclear hr => ih hr hclear

end Canvas

end Reshape

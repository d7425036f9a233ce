import Reshape.Proofs.Path.Independent
import Reshape.Proofs.Store.Tree

/-!
# Planting

`Branches.plant` puts a seed into branches as a write puts a cell into an output: the nodes on the
way are those of the branches, and new ones where there are none. No node is led to twice
afterwards, if none was before (`Branches.entered_plant`). The values are those that a write tells
(`Branches.values_plant`), as long as the way does not lead into a leaf (`Branches.Clear`); and it
goes on to lead into none if it does not lead into what is planted, or if that has no leaves but
scalars (`Branches.clear_plant`).
-/

namespace Reshape

/-! ### Seeds -/

/-- What is written: a tree and, where its cell leads to a list, trees for the elements. -/
structure Seed where
  tree : Tree
  elements : Option (List Tree)

namespace Seed

/-- The nodes that must not change for the seed to go on standing. -/
def Needs (x : Seed) (a : Nat) : Prop :=
  x.tree.cell = .ref a ∨ a ∈ x.tree.places

structure Rooted (s : Store) (x : Seed) : Prop where
  standing : x.tree.Standing s
  live : ∀ {a}, x.tree.cell = .ref a → a < s.size
  elements : s.elements? x.tree.cell = x.elements.map (List.map Tree.cell)
  parts : ∀ {ys}, x.elements = some ys → ∀ y ∈ ys, y.Standing s
  within : ∀ {ys}, x.elements = some ys → ∀ y ∈ ys, ∀ a ∈ y.places, a ∈ x.tree.places

variable {s t : Store} {x : Seed}

theorem Rooted.lt_size (h : x.Rooted s) {a : Nat} (ha : x.Needs a) : a < s.size := by
  rcases ha with ha | ha
  · exact h.live ha
  · exact h.standing.lt_size ha

theorem Rooted.of_agree (h : x.Rooted s) (hsize : s.size ≤ t.size)
    (hagree : ∀ a, x.Needs a → t.get? a = s.get? a) : x.Rooted t where
  standing := h.standing.of_agree fun a n ha hn => (hagree a (.inr ha)).trans hn
  live ha := Nat.lt_of_lt_of_le (h.live ha) hsize
  elements := by
    rw [← h.elements]
    cases hc : x.tree.cell with
    | scalar x => rfl
    | ref a =>
      rw [Store.elements?, hagree a (.inl hc)]
      rfl
  parts hys y hy := (h.parts hys y hy).of_agree fun a n ha hn =>
    (hagree a (.inr (h.within hys y hy a ha))).trans hn
  within := h.within

end Seed

/-! ### Planting -/

namespace Branches

/-- The elements of the list under a key, none if there is no list. -/
def elementsUnder (ts : Branches) (k : Text) : List Tree :=
  match Keyed.get? ts k with
  | some (.list _ xs) => xs
  | _ => []

/-- The branches of the object under a key, none if there is no object. -/
def under (ts : Branches) (k : Text) : Branches :=
  match Keyed.get? ts k with
  | some (.obj _ ms) => ms
  | _ => []

/-- The branches of the first tree, none if it is no object. -/
def first (xs : List Tree) : Branches :=
  match xs.head? with
  | some (.obj _ ms) => ms
  | _ => []

/-- The address of the list under a key, and where the next node goes. -/
def listPlace (next : Nat) (ts : Branches) (k : Text) : Nat × Nat :=
  match Keyed.get? ts k with
  | some (.list a _) => (a, next)
  | _ => (next, next + 1)

def objectPlace (next : Nat) (ts : Branches) (k : Text) : Nat × Nat :=
  match Keyed.get? ts k with
  | some (.obj a _) => (a, next)
  | _ => (next, next + 1)

def firstPlace (next : Nat) (xs : List Tree) : Nat × Nat :=
  match xs.head? with
  | some (.obj b _) => (b, next)
  | _ => (next, next + 1)

/-- The branches after a seed was put at a target, where the nodes from `next` on are free; and the
node that is free next. -/
def plant (next : Nat) (ts : Branches) : Target → Seed → Branches × Nat
  | [], _ => (ts, next)
  | [.field k], x => (Keyed.put ts k x.tree, next)
  | [.array k], x =>
    let (a, next) := listPlace next ts k
    match x.elements with
    | some ys => (Keyed.put ts k (.list next ys), next + 1)
    | none => (Keyed.put ts k (.list a (ts.elementsUnder k ++ [x.tree])), next)
  | .field k :: s :: rest, x =>
    let (a, next) := objectPlace next ts k
    let (ms, next) := plant next (ts.under k) (s :: rest) x
    (Keyed.put ts k (.obj a ms), next)
  | .array k :: s :: rest, x =>
    let (a, next) := listPlace next ts k
    let (b, next) := firstPlace next (ts.elementsUnder k)
    let (ms, next) := plant next (first (ts.elementsUnder k)) (s :: rest) x
    (Keyed.put ts k (.list a (.obj b ms :: (ts.elementsUnder k).tail)), next)

/-- What stands under a key is no leaf, or a scalar. -/
def Open (old : Option Tree) : Prop :=
  ∀ c v, old = some (.leaf c v) → Tree.IsScalar c v

/-- The way to a target does not lead into a leaf. -/
def Clear : Target → Branches → Prop
  | [], _ => True
  | [.field _], _ => True
  | .array k :: rest, ts =>
    Open (Keyed.get? ts k) ∧
      (rest ≠ [] → Open (ts.elementsUnder k).head? ∧ Clear rest (first (ts.elementsUnder k)))
  | .field k :: rest, ts => Open (Keyed.get? ts k) ∧ Clear rest (ts.under k)

end Branches

namespace Seed

/-- The elements are those of the tree, and no node is led to twice. -/
structure Sound (x : Seed) : Prop where
  nodup : x.tree.places.Nodup
  nodup_elements : ∀ {ys}, x.elements = some ys → (ys.flatMap Tree.places).Nodup
  within : ∀ {ys}, x.elements = some ys → ∀ a ∈ ys.flatMap Tree.places, a ∈ x.tree.places
  value : ∀ {ys}, x.elements = some ys → x.tree.value = .list (ys.map Tree.value)
  not_list : x.elements = none → ∀ vs, x.tree.value ≠ .list vs

end Seed

/-- The tree and its elements are unfolded down to scalars. -/
structure Seed.Full (x : Seed) : Prop where
  tree : x.tree.Full
  elements : ∀ {ys}, x.elements = some ys → ∀ y ∈ ys, y.Full

namespace Branches

variable {ts : Branches} {xs : List Tree} {k : Text} {T : Tree} {old : Option Tree} {x : Seed}
  {next a : Nat}

/-! ### Places -/

/-- The places under a key. -/
def placesUnder (ts : Branches) (k : Text) : List Nat :=
  ((Keyed.get? ts k).map Tree.places).getD []

theorem placesUnder_sublist (ts : Branches) (k : Text) : (ts.placesUnder k).Sublist ts.places := by
  unfold placesUnder
  cases hT : Keyed.get? ts k with
  | none => exact List.nil_sublist _
  | some T =>
    exact List.sublist_flatten_of_mem (List.mem_map.mpr ⟨(k, T), Keyed.mem_of_get? hT, rfl⟩)

theorem mem_places_put (ha : a ∈ places (Keyed.put ts k T)) : a ∈ ts.places ∨ a ∈ T.places := by
  obtain ⟨m, hm, ha⟩ := List.mem_flatMap.mp ha
  rcases Keyed.mem_put hm with hm | rfl
  · exact .inl (List.mem_flatMap.mpr ⟨m, hm, ha⟩)
  · exact .inr ha

theorem places_append (ts us : Branches) : places (ts ++ us) = ts.places ++ us.places :=
  List.flatMap_append

theorem places_cons (m : Text × Tree) (ts : Branches) :
    places (m :: ts) = m.2.places ++ ts.places :=
  List.flatMap_cons

theorem nodup_places_put (h : ts.places.Nodup) (hT : T.places.Nodup)
    (hnew : ∀ a ∈ T.places, a ∈ ts.placesUnder k ∨ a ∉ ts.places) :
    (places (Keyed.put ts k T)).Nodup := by
  obtain ⟨before, after, hput, ⟨hnone, rfl, rfl⟩ | ⟨old, hsome, rfl⟩⟩ := Keyed.exists_put ts k
  · rw [hput, places_append, places_cons]
    have hdisjoint : ∀ a ∈ T.places, a ∉ places ts := fun a ha => by
      rcases hnew a ha with hmem | hnot
      · simp [placesUnder, hnone] at hmem
      · exact hnot
    refine List.nodup_append.mpr ⟨h, ?_, fun a ha b hb => ?_⟩
    · simpa [places] using hT
    · rintro rfl
      rcases List.mem_append.mp hb with hb | hb
      · exact hdisjoint a hb ha
      · simp [places] at hb
  · rw [places_append, places_cons] at h
    rw [hput, places_append, places_cons]
    simp only [List.nodup_append, List.mem_append, placesUnder, hsome, Option.map_some,
      Option.getD_some, places_append, places_cons] at h hnew ⊢
    obtain ⟨hb, ⟨-, ha, hoa⟩, hboa⟩ := h
    refine ⟨hb, ⟨hT, ha, fun x hx y hy => ?_⟩, fun x hx y hy => ?_⟩
    · rintro rfl
      rcases hnew x hx with hold | hnot
      · exact hoa x hold x hy rfl
      · exact hnot (.inr (.inr hy))
    · rintro rfl
      rcases hy with hy | hy
      · rcases hnew x hy with hold | hnot
        · exact hboa x hx x (.inl hold) rfl
        · exact hnot (.inl hx)
      · exact hboa x hx x (.inr hy) rfl

/-- What is entered on the way: no node is led to twice, and all are there or are made. -/
structure Entered (next : Nat) (old new : List Nat) (next' : Nat) : Prop where
  le : next ≤ next'
  nodup : new.Nodup
  place : ∀ a ∈ new, a ∈ old ∨ next ≤ a ∧ a < next'

theorem entered_list (next : Nat) (h : (ts.placesUnder k).Nodup) :
    Entered next (ts.placesUnder k)
      (Tree.list (listPlace next ts k).1 (ts.elementsUnder k)).places (listPlace next ts k).2 := by
  have hmade : Entered next (ts.placesUnder k) (Tree.list next []).places (next + 1) :=
    ⟨Nat.le_succ next, by simp, fun a ha => .inr (by simp at ha; omega)⟩
  unfold placesUnder at *
  unfold listPlace elementsUnder
  cases hT : Keyed.get? ts k with
  | none => rwa [hT] at hmade
  | some T =>
    rw [hT] at hmade h
    cases T with
    | leaf c v => exact hmade
    | list a xs => exact ⟨Nat.le_refl _, h, fun a ha => .inl ha⟩
    | obj a ms => exact hmade

theorem entered_object (next : Nat) (h : (ts.placesUnder k).Nodup) :
    Entered next (ts.placesUnder k) (Tree.obj (objectPlace next ts k).1 (ts.under k)).places
      (objectPlace next ts k).2 := by
  have hmade : Entered next (ts.placesUnder k) (Tree.obj next []).places (next + 1) :=
    ⟨Nat.le_succ next, by simp [places], fun a ha => .inr (by simp [places] at ha; omega)⟩
  unfold placesUnder at *
  unfold objectPlace under
  cases hT : Keyed.get? ts k with
  | none => rwa [hT] at hmade
  | some T =>
    rw [hT] at hmade h
    cases T with
    | leaf c v => exact hmade
    | list a xs => exact hmade
    | obj a ms => exact ⟨Nat.le_refl _, h, fun a ha => .inl ha⟩

theorem entered_first (next : Nat) (h : (xs.flatMap Tree.places).Nodup)
    (hlt : ∀ a ∈ xs.flatMap Tree.places, a < next) :
    Entered next (xs.flatMap Tree.places)
      ((Tree.obj (firstPlace next xs).1 (first xs) :: xs.tail).flatMap Tree.places)
      (firstPlace next xs).2 := by
  cases xs with
  | nil => exact ⟨Nat.le_succ next, by simp [first, places], fun a ha => .inr (by
      simp [firstPlace, first, places] at ha ⊢; omega)⟩
  | cons T xs =>
    have hmade : Entered next ((T :: xs).flatMap Tree.places)
        ((Tree.obj next [] :: xs).flatMap Tree.places) (next + 1) := by
      rw [List.flatMap_cons] at h hlt ⊢
      refine ⟨Nat.le_succ next, ?_, fun a ha => ?_⟩
      · refine List.nodup_append.mpr ⟨by simp [places], (List.nodup_append.mp h).2.1, ?_⟩
        rintro a ha b hb rfl
        simp only [Tree.places_obj, places, List.flatMap_nil, List.mem_singleton] at ha
        exact Nat.ne_of_lt (hlt a (List.mem_append_right _ hb)) ha
      · rcases List.mem_append.mp ha with ha | ha
        · simp [places] at ha
          exact .inr (by omega)
        · exact .inl (List.mem_append_right _ ha)
    cases T with
    | leaf c v => exact hmade
    | list b ys => exact hmade
    | obj b ms => exact ⟨Nat.le_refl _, h, fun a ha => .inl ha⟩

namespace Entered

variable {old heads inner inner' tail w : List Nat} {mid next' : Nat}

theorem lt (h : Entered next old inner next') (hold : ∀ a ∈ old, a < next) (ha : a ∈ inner) :
    a < next' := by
  rcases h.place a ha with ha | ha
  · exact Nat.lt_of_lt_of_le (hold a ha) h.le
  · exact ha.2

theorem not_mem (h : Entered next old inner next') (ha : a < next ∧ a ∉ old) : a ∉ inner := by
  intro hmem
  rcases h.place a hmem with hmem | hmem
  · exact ha.2 hmem
  · exact Nat.not_le.mpr ha.1 hmem.1

/-- What is inside of what was entered is replaced. -/
theorem enter (h : Entered next old (heads ++ (inner ++ tail)) mid)
    (h' : Entered mid (inner ++ w) inner' next') (hold : ∀ a ∈ old, a < next)
    (hseed : ∀ a ∈ w, a < next ∧ a ∉ old) :
    Entered next (old ++ w) (heads ++ (inner' ++ tail)) next' := by
  have hlt : ∀ a ∈ heads ++ (inner ++ tail), a < mid := fun a ha => h.lt hold ha
  have hnot : ∀ a ∈ w, a ∉ heads ++ (inner ++ tail) := fun a ha => h.not_mem (hseed a ha)
  obtain ⟨hheads, hrest, hapart⟩ := List.nodup_append.mp h.nodup
  obtain ⟨-, htail, hapart'⟩ := List.nodup_append.mp hrest
  refine ⟨Nat.le_trans h.le h'.le, ?_, fun a ha => ?_⟩
  · refine List.nodup_append.mpr ⟨hheads, List.nodup_append.mpr ⟨h'.nodup, htail, ?_⟩, ?_⟩
    · rintro a ha b hb rfl
      rcases h'.place a ha with ha | ha
      · rcases List.mem_append.mp ha with ha | ha
        · exact hapart' a ha a hb rfl
        · exact hnot a ha (by simp [hb])
      · exact Nat.not_le.mpr (hlt a (by simp [hb])) ha.1
    · rintro a ha b hb rfl
      rcases List.mem_append.mp hb with hb | hb
      · rcases h'.place a hb with hb | hb
        · rcases List.mem_append.mp hb with hb | hb
          · exact hapart a ha a (by simp [hb]) rfl
          · exact hnot a hb (by simp [ha])
        · exact Nat.not_le.mpr (hlt a (by simp [ha])) hb.1
      · exact hapart a ha a (by simp [hb]) rfl
  · have hplace : ∀ b ∈ heads ++ (inner ++ tail), b ∈ old ++ w ∨ next ≤ b ∧ b < next' :=
      fun b hb => (h.place b hb).imp (List.mem_append_left _) fun hb =>
        ⟨hb.1, Nat.lt_of_lt_of_le hb.2 h'.le⟩
    simp only [List.mem_append] at ha hplace ⊢
    rcases ha with ha | ha | ha
    · exact hplace a (.inl ha)
    · rcases h'.place a ha with ha | ha
      · rcases List.mem_append.mp ha with ha | ha
        · exact hplace a (.inr (.inl ha))
        · exact .inl (.inr ha)
      · exact .inr ⟨Nat.le_trans h.le ha.1, ha.2⟩
    · exact hplace a (.inr (.inr ha))

end Entered

theorem entered_put {w : List Nat} {next' : Nat} (h : ts.places.Nodup)
    (hlt : ∀ a ∈ ts.places, a < next) (hseed : ∀ a ∈ w, a < next ∧ a ∉ ts.places)
    (hT : Entered next (ts.placesUnder k ++ w) T.places next') :
    Entered next (ts.places ++ w) (places (Keyed.put ts k T)) next' := by
  have hplace := hT.place
  simp only [List.mem_append] at hplace
  refine ⟨hT.le, nodup_places_put h hT.nodup fun a ha => ?_, fun a ha => ?_⟩
  · rcases hplace a ha with (ha | ha) | ha
    · exact .inl ha
    · exact .inr (hseed a ha).2
    · exact .inr fun hmem => Nat.not_le.mpr (hlt a hmem) ha.1
  · rw [List.mem_append]
    rcases mem_places_put ha with ha | ha
    · exact .inl (.inl ha)
    · rcases hplace a ha with (ha | ha) | ha
      · exact .inl (.inl ((ts.placesUnder_sublist k).subset ha))
      · exact .inl (.inr ha)
      · exact .inr ha

/-- What is entered on the way was there or is new. -/
theorem Entered.way {new : List Nat} {next' : Nat} (h : Entered next (ts.placesUnder k) new next') :
    ∀ a ∈ new, a ∈ ts.places ∨ next ≤ a :=
  fun a ha => (h.place a ha).imp (fun ha => (ts.placesUnder_sublist k).subset ha) And.left

/-- The list under a key and its first element, which are there or are made. -/
theorem entered_carrier (next : Nat) (h : (ts.placesUnder k).Nodup)
    (hlt : ∀ a ∈ ts.placesUnder k, a < next) :
    let list := listPlace next ts k
    let carrier := firstPlace list.2 (ts.elementsUnder k)
    Entered next (ts.placesUnder k)
      ([list.1, carrier.1] ++ ((first (ts.elementsUnder k)).places ++
        (ts.elementsUnder k).tail.flatMap Tree.places)) carrier.2 := by
  have hin := entered_list next h
  rw [Tree.places_list] at hin
  have hfirst := entered_first (listPlace next ts k).2 (List.nodup_cons.mp hin.nodup).2
    fun a ha => hin.lt hlt (List.mem_cons_of_mem _ ha)
  rw [List.flatMap_cons, Tree.places_obj] at hfirst
  have hlist : Entered next (ts.placesUnder k)
      ([(listPlace next ts k).1] ++ ((ts.elementsUnder k).flatMap Tree.places ++ []))
      (listPlace next ts k).2 := by simpa using hin
  simpa using hlist.enter (w := []) (by simpa using hfirst) hlt (by simp)

/-- Planting leads to no node twice, and leads to nodes that were there, nodes of the seed, and new
ones. -/
theorem entered_plant (hx : x.Sound) (target : Target) (hnodup : ts.places.Nodup)
    (hlt : ∀ a ∈ ts.places, a < next) (hxlt : ∀ a ∈ x.tree.places, a < next ∧ a ∉ ts.places) :
    Entered next (ts.places ++ x.tree.places) (plant next ts target x).1.places
      (plant next ts target x).2 := by
  induction target generalizing next ts with
  | nil => exact ⟨Nat.le_refl _, hnodup, fun a ha => .inl (List.mem_append_left _ ha)⟩
  | cons slot rest ih =>
    have hsub : ∀ {k a}, a ∈ ts.placesUnder k → a ∈ ts.places :=
      fun ha => (ts.placesUnder_sublist _).subset ha
    have hlt' : ∀ k, ∀ a ∈ ts.placesUnder k, a < next := fun k a ha => hlt a (hsub ha)
    have hxlt' : ∀ k, ∀ a ∈ x.tree.places, a < next ∧ a ∉ ts.placesUnder k :=
      fun k a ha => ⟨(hxlt a ha).1, fun hmem => (hxlt a ha).2 (hsub hmem)⟩
    have hunder : ∀ k, (ts.placesUnder k).Nodup := fun k =>
      hnodup.sublist (ts.placesUnder_sublist k)
    cases slot with
    | field k =>
      cases rest with
      | nil =>
        refine entered_put hnodup hlt hxlt ⟨Nat.le_refl _, hx.nodup, fun a ha => .inl ?_⟩
        exact List.mem_append_right _ ha
      | cons s rest =>
        have hin := entered_object next (hunder k)
        rw [plant]
        generalize objectPlace next ts k = place at hin
        obtain ⟨b, mid⟩ := place
        simp only [Tree.places_obj] at hin
        have hin' : Entered next (ts.placesUnder k) ([b] ++ ((ts.under k).places ++ [])) mid := by
          simpa using hin
        have hout := ih (List.nodup_cons.mp hin.nodup).2
          (fun a ha => hin.lt (hlt' k) (List.mem_cons_of_mem _ ha))
          (fun a ha => ⟨Nat.lt_of_lt_of_le (hxlt a ha).1 hin.le, fun hmem =>
            hin.not_mem (hxlt' k a ha) (List.mem_cons_of_mem _ hmem)⟩)
        refine entered_put hnodup hlt hxlt ?_
        simpa using hin'.enter hout (hlt' k) (hxlt' k)
    | array k =>
      have hin := entered_list next (hunder k)
      cases rest with
      | nil =>
        rw [plant]
        generalize listPlace next ts k = place at hin
        obtain ⟨b, mid⟩ := place
        have hle := hin.le
        rw [Tree.places_list] at hin
        cases hys : x.elements with
        | some ys =>
          refine entered_put hnodup hlt hxlt ⟨Nat.le_succ_of_le hle, ?_, fun a ha => ?_⟩
          · rw [Tree.places_list]
            refine List.nodup_cons.mpr ⟨fun hmem => ?_, hx.nodup_elements hys⟩
            exact Nat.not_le.mpr (hxlt mid (hx.within hys mid hmem)).1 hle
          · rw [Tree.places_list] at ha
            rcases List.mem_cons.mp ha with rfl | ha
            · exact .inr ⟨hle, Nat.lt_succ_self _⟩
            · exact .inl (List.mem_append_right _ (hx.within hys a ha))
        | none =>
          refine entered_put hnodup hlt hxlt ?_
          rw [Tree.places_list, List.flatMap_append, List.flatMap_singleton]
          have hin' : Entered next (ts.placesUnder k)
              ((b :: (ts.elementsUnder k).flatMap Tree.places) ++ ([] ++ [])) mid := by
            simpa using hin
          have hseed : Entered mid ([] ++ x.tree.places) x.tree.places mid :=
            ⟨Nat.le_refl _, hx.nodup, fun a ha => .inl ha⟩
          simpa using hin'.enter hseed (hlt' k) (hxlt' k)
      | cons s rest =>
        have hin' := entered_carrier next (hunder k) (hlt' k)
        rw [plant]
        generalize listPlace next ts k = place at hin'
        obtain ⟨b, mid⟩ := place
        generalize ts.elementsUnder k = xs at hin'
        dsimp only at hin' ⊢
        generalize firstPlace mid xs = place at hin'
        obtain ⟨d, mid'⟩ := place
        dsimp only at hin' ⊢
        have hmem : ∀ {a}, a ∈ (first xs).places →
            a ∈ [b, d] ++ ((first xs).places ++ xs.tail.flatMap Tree.places) := fun ha =>
          List.mem_append_right _ (List.mem_append_left _ ha)
        have hout := ih
          (List.nodup_append.mp (List.nodup_append.mp hin'.nodup).2.1).1
          (fun a ha => hin'.lt (hlt' k) (hmem ha))
          (fun a ha => ⟨Nat.lt_of_lt_of_le (hxlt a ha).1 hin'.le, fun ha' =>
            hin'.not_mem (hxlt' k a ha) (hmem ha')⟩)
        refine entered_put hnodup hlt hxlt ?_
        simpa using hin'.enter hout (hlt' k) (hxlt' k)

/-! ### Values -/

theorem elements_scalar (x : Scalar) : x.value.elements = [] := by
  cases x <;> rfl

theorem members_scalar (x : Scalar) : x.value.members = [] := by
  cases x <;> rfl

theorem elementsUnder_values (h : Open (Keyed.get? ts k)) :
    Reshape.elementsUnder ts.values k = (ts.elementsUnder k).map Tree.value := by
  unfold Reshape.elementsUnder elementsUnder
  rw [get?_values]
  cases hT : Keyed.get? ts k with
  | none => rfl
  | some T =>
    cases T with
    | leaf c v =>
      obtain ⟨x, -, rfl⟩ := h c v hT
      simp [elements_scalar]
    | list a xs => simp [Value.elements]
    | obj a ms => simp [Value.elements]

theorem membersUnder_values (h : Open (Keyed.get? ts k)) :
    membersUnder ts.values k = (ts.under k).values := by
  unfold membersUnder under
  rw [get?_values]
  cases hT : Keyed.get? ts k with
  | none => rfl
  | some T =>
    cases T with
    | leaf c v =>
      obtain ⟨x, -, rfl⟩ := h c v hT
      simp [members_scalar, values]
    | list a xs => simp [Value.members, values]
    | obj a ms => simp [Value.members]

theorem firstMembers_values (h : Open xs.head?) :
    firstMembers (xs.map Tree.value) = (first xs).values := by
  unfold firstMembers first
  rw [List.head?_map]
  cases hT : xs.head? with
  | none => rfl
  | some T =>
    cases T with
    | leaf c v =>
      obtain ⟨x, -, rfl⟩ := h c v hT
      simp [members_scalar, values]
    | list a xs => simp [Value.members, values]
    | obj a ms => simp [Value.members]

/-- The values are those that a write tells. -/
theorem values_plant (hx : x.Sound) (target : Target) (h : Clear target ts) :
    (plant next ts target x).1.values = Reshape.write ts.values target x.tree.value := by
  induction target generalizing next ts with
  | nil => rfl
  | cons slot rest ih =>
    cases slot with
    | field k =>
      cases rest with
      | nil => exact values_put ts k x.tree
      | cons s rest =>
        rw [plant, Reshape.write, values_put, Tree.value_obj, membersUnder_values h.1, ih h.2]
        simp
    | array k =>
      cases rest with
      | nil =>
        rw [plant, Reshape.write, elementsUnder_values h.1]
        cases hys : x.elements with
        | some ys => simp only [values_put, Tree.value_list, hx.value hys, appended]
        | none =>
          rw [appended_of_not_list _ (hx.not_list hys)]
          simp only [values_put, Tree.value_list, List.map_append, List.map_singleton]
      | cons s rest =>
        obtain ⟨hfirst, hrest⟩ := h.2 (List.cons_ne_nil s rest)
        rw [plant, Reshape.write, values_put, Tree.value_list, List.map_cons, Tree.value_obj,
          List.map_tail, ih hrest, elementsUnder_values h.1, firstMembers_values hfirst]
        simp

/-! ### Leaves -/

theorem leaves_put {P : Cell → Value → Prop} (h : ∀ m ∈ ts, m.2.Leaves P) (hT : T.Leaves P) :
    ∀ m ∈ Keyed.put ts k T, m.2.Leaves P := by
  intro m hm
  rcases Keyed.mem_put hm with hm | rfl
  · exact h m hm
  · exact hT

theorem leaves_elementsUnder {P : Cell → Value → Prop} (h : ∀ m ∈ ts, m.2.Leaves P) (k : Text) :
    ∀ t ∈ ts.elementsUnder k, t.Leaves P := by
  unfold elementsUnder
  split
  · next hT => exact (Tree.leaves_list _ _ P).mp (h _ (Keyed.mem_of_get? hT))
  · simp

theorem leaves_under {P : Cell → Value → Prop} (h : ∀ m ∈ ts, m.2.Leaves P) (k : Text) :
    ∀ m ∈ ts.under k, m.2.Leaves P := by
  unfold under
  split
  · next hT => exact (Tree.leaves_obj _ _ P).mp (h _ (Keyed.mem_of_get? hT))
  · simp

theorem leaves_first {P : Cell → Value → Prop} (h : ∀ t ∈ xs, t.Leaves P) :
    ∀ m ∈ first xs, m.2.Leaves P := by
  unfold first
  split
  · next hT => exact (Tree.leaves_obj _ _ P).mp (h _ (List.mem_of_mem_head? hT))
  · simp

/-- The leaves are those that were there and those of the seed. -/
theorem leaves_plant {P : Cell → Value → Prop} (hx : x.tree.Leaves P)
    (hys : ∀ ys, x.elements = some ys → ∀ y ∈ ys, y.Leaves P) (target : Target)
    (h : ∀ m ∈ ts, m.2.Leaves P) : ∀ m ∈ (plant next ts target x).1, m.2.Leaves P := by
  induction target generalizing next ts with
  | nil => exact h
  | cons slot rest ih =>
    cases slot with
    | field k =>
      cases rest with
      | nil => exact leaves_put h hx
      | cons s rest =>
        rw [plant]
        exact leaves_put h ((Tree.leaves_obj _ _ P).mpr (ih (leaves_under h k)))
    | array k =>
      have hold := leaves_elementsUnder h k
      cases rest with
      | nil =>
        rw [plant]
        cases hxs : x.elements with
        | some ys => exact leaves_put h ((Tree.leaves_list _ _ P).mpr (hys ys hxs))
        | none =>
          refine leaves_put h ((Tree.leaves_list _ _ P).mpr fun t ht => ?_)
          rcases List.mem_append.mp ht with ht | ht
          · exact hold t ht
          · cases List.mem_singleton.mp ht
            exact hx
      | cons s rest =>
        rw [plant]
        refine leaves_put h ((Tree.leaves_list _ _ P).mpr (List.forall_mem_cons.mpr ⟨?_, ?_⟩))
        · exact (Tree.leaves_obj _ _ P).mpr (ih (leaves_first hold))
        · exact fun t ht => hold t (List.mem_of_mem_tail ht)

/-! ### Targets that stay clear -/

theorem exists_plant_cons (next : Nat) (ts : Branches) (s : Slot) (rest : Target) (x : Seed) :
    ∃ T, (plant next ts (s :: rest) x).1 = Keyed.put ts s.key T := by
  cases s with
  | field k =>
    cases rest with
    | nil => exact ⟨_, rfl⟩
    | cons s rest => exact ⟨_, by rw [plant]; rfl⟩
  | array k =>
    cases rest with
    | nil =>
      rw [plant]
      cases x.elements with
      | none => exact ⟨_, rfl⟩
      | some ys => exact ⟨_, rfl⟩
    | cons s rest => exact ⟨_, by rw [plant]; rfl⟩

theorem clear_field (k : Text) {s : Slot} {rest : Target} :
    Clear (.field k :: s :: rest) ts ↔
      Open (Keyed.get? ts k) ∧ Clear (s :: rest) (ts.under k) := by
  rw [Clear]
  nofun

theorem under_put (ts : Branches) (k : Text) (a : Nat) (ms : Branches) :
    under (Keyed.put ts k (.obj a ms)) k = ms := by
  rw [under, Keyed.get?_put_self]

theorem elementsUnder_put (ts : Branches) (k : Text) (a : Nat) (xs : List Tree) :
    elementsUnder (Keyed.put ts k (.list a xs)) k = xs := by
  rw [elementsUnder, Keyed.get?_put_self]

/-- Only what stands under its first key decides whether a target is clear. -/
theorem clear_congr {us : Branches} {s : Slot} (h : Keyed.get? us s.key = Keyed.get? ts s.key)
    (rest : Target) : Clear (s :: rest) us ↔ Clear (s :: rest) ts := by
  cases s with
  | field k =>
    cases rest with
    | nil => exact .rfl
    | cons s rest =>
      rw [Slot.key] at h
      rw [clear_field, clear_field, under, under, h]
  | array k =>
    rw [Slot.key] at h
    rw [Clear, Clear, elementsUnder, elementsUnder, h]

theorem open_none : Open none := by
  intro c v h
  cases h

theorem clear_nil (target : Target) : Clear target [] := by
  induction target with
  | nil => trivial
  | cons s rest ih =>
    cases s with
    | field k =>
      cases rest with
      | nil => trivial
      | cons s rest => exact (clear_field k).mpr ⟨open_none, ih⟩
    | array k =>
      rw [Clear]
      exact ⟨open_none, fun _ => ⟨open_none, ih⟩⟩

theorem open_of_full (h : ∀ t, old = some t → t.Full) : Open old := by
  intro c v hold
  exact (h _ hold).exists_scalar

/-- Where all branches are unfolded down to their scalars, no way leads into a leaf. -/
theorem clear_of_full (target : Target) (h : ∀ m ∈ ts, m.2.Full) : Clear target ts := by
  have hopen : ∀ (us : Branches) k, (∀ m ∈ us, m.2.Full) → Open (Keyed.get? us k) := fun us k hus =>
    open_of_full fun t ht => hus _ (Keyed.mem_of_get? ht)
  induction target generalizing ts with
  | nil => trivial
  | cons s rest ih =>
    cases s with
    | field k =>
      cases rest with
      | nil => trivial
      | cons s rest => exact (clear_field k).mpr ⟨hopen ts k h, ih (leaves_under h k)⟩
    | array k =>
      have helements := leaves_elementsUnder h k
      rw [Clear]
      exact ⟨hopen ts k h, fun _ =>
        ⟨open_of_full fun t ht => helements t (List.mem_of_mem_head? ht),
        ih (leaves_first helements)⟩⟩

/-- Under an object only the way into the object matters. -/
theorem clear_put_obj (ts : Branches) {t : Slot} (ht : t.key = k) (a : Nat) {ms : Branches}
    {others : Target} (h : t = .field k → others ≠ [] → Clear others ms) :
    Clear (t :: others) (Keyed.put ts k (.obj a ms)) := by
  have hopen : Open (some (Tree.obj a ms)) := fun c v e => by simp at e
  cases t with
  | field key =>
    subst ht
    cases others with
    | nil => trivial
    | cons o others =>
      rw [clear_field, Slot.key, Keyed.get?_put_self, under_put]
      exact ⟨hopen, h rfl (List.cons_ne_nil o others)⟩
  | array key =>
    subst ht
    have hnone : elementsUnder (Keyed.put ts key (.obj a ms)) key = [] := by
      rw [elementsUnder, Keyed.get?_put_self]
    rw [Clear, Slot.key, Keyed.get?_put_self, hnone]
    exact ⟨hopen, fun _ => ⟨open_none, clear_nil others⟩⟩

/-- Under a list only the way into its first element matters. -/
theorem clear_put_list (ts : Branches) {t : Slot} (ht : t.key = k) (a : Nat) {xs : List Tree}
    {others : Target}
    (h : t = .array k → others ≠ [] → Open xs.head? ∧ Clear others (first xs)) :
    Clear (t :: others) (Keyed.put ts k (.list a xs)) := by
  have hopen : Open (some (Tree.list a xs)) := fun c v e => by simp at e
  cases t with
  | field key =>
    subst ht
    cases others with
    | nil => trivial
    | cons o others =>
      have hnone : under (Keyed.put ts key (.list a xs)) key = [] := by
        rw [under, Keyed.get?_put_self]
      rw [clear_field, Slot.key, Keyed.get?_put_self, hnone]
      exact ⟨hopen, clear_nil (o :: others)⟩
  | array key =>
    subst ht
    rw [Clear, Slot.key, Keyed.get?_put_self, elementsUnder_put]
    exact ⟨hopen, h rfl⟩

theorem clear_put_full (ts : Branches) {t : Slot} (ht : t.key = k) (hT : T.Full) (others : Target) :
    Clear (t :: others) (Keyed.put ts k T) := by
  have halone : Keyed.get? (Keyed.put ts k T) t.key = Keyed.get? ([(k, T)] : Branches) t.key := by
    rw [ht, Keyed.get?_put_self, Keyed.get?, if_pos rfl]
  rw [clear_congr halone]
  exact clear_of_full _ (List.forall_mem_singleton.mpr hT)

/-- A target stays clear if it does not lead into what is planted, or into nothing but scalars in
it. -/
theorem clear_plant {target other : Target} (h : Clear other ts)
    (hx : Target.LeadsInto other target → x.Full) : Clear other (plant next ts target x).1 := by
  induction target generalizing next ts other with
  | nil => exact h
  | cons s rest ih =>
    cases other with
    | nil => trivial
    | cons t others =>
      by_cases hkey : t.key = s.key
      case neg =>
        obtain ⟨T, hT⟩ := exists_plant_cons next ts s rest x
        rw [hT]
        exact (clear_congr (Keyed.get?_put_of_ne ts T hkey) others).mpr h
      -- Below the first slot the way is clear by induction, or it comes to the seed.
      cases s with
      | field k =>
        cases rest with
        | nil =>
          by_cases hinto : Target.LeadsInto (t :: others) [.field k]
          · exact clear_put_full ts hkey (hx hinto).tree others
          · cases t with
            | array key => exact (hinto (.inr ⟨rfl, congrArg _ hkey⟩)).elim
            | field key =>
              cases others with
              | nil => trivial
              | cons o others =>
                exact (hinto (.inl ⟨congrArg _ hkey, List.cons_ne_nil o others⟩)).elim
        | cons r rest =>
          rw [plant]
          refine clear_put_obj ts hkey _ fun ht hne => ?_
          subst ht
          obtain ⟨o, others, rfl⟩ := List.exists_cons_of_ne_nil hne
          exact ih ((clear_field k).mp h).2 fun hinto => hx ⟨rfl, hinto⟩
      | array k =>
        cases rest with
        | nil =>
          have hfull : t = .array k → others ≠ [] → x.Full := fun ht hne => hx (.inl ⟨ht, hne⟩)
          rw [plant]
          cases hys : x.elements with
          | some ys =>
            refine clear_put_list ts hkey _ fun ht hne => ?_
            have hys := (hfull ht hne).elements hys
            exact ⟨open_of_full fun y hy => hys y (List.mem_of_mem_head? hy),
              clear_of_full others (leaves_first hys)⟩
          | none =>
            refine clear_put_list ts hkey _ fun ht hne => ?_
            have hseed := List.forall_mem_singleton.mpr (hfull ht hne).tree
            obtain rfl : t = .array k := ht
            obtain ⟨hopen, hclear⟩ := h.2 hne
            cases hold : ts.elementsUnder k with
            | nil =>
              exact ⟨open_of_full fun y hy => hseed y (List.mem_of_mem_head? hy),
                clear_of_full others (leaves_first hseed)⟩
            | cons y ys =>
              rw [hold] at hopen hclear
              exact ⟨hopen, hclear⟩
        | cons r rest =>
          rw [plant]
          refine clear_put_list ts hkey _ fun ht hne => ⟨fun c v e => by simp at e, ?_⟩
          subst ht
          exact ih (h.2 hne).2 fun hinto => hx ⟨rfl, hinto⟩

end Branches

end Reshape

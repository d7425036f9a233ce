import Mathlib.Data.List.Dedup
import Reshape.Proofs.Mapping.Correspondence
import Reshape.Proofs.Path.Fields
import Reshape.Proofs.Store.Joining
import Reshape.Proofs.Store.Planting
import Reshape.Proofs.Store.Shown

/-!
# What a mapping sees of a record

A path enters an object under the key of its first segment, and nothing else of the object is looked
at. So two records that agree on these keys (`AgreeOn`, `keysSeen`) are mapped alike, down to their
warnings and to what stops them (`mapRecord_agreeOn`). Transforms may answer with parts of a record,
and targets may lead into them, but not to the record itself: its members are what they were
(`Beside.step`), and what is under the keys goes on to correspond.
-/

namespace Reshape

/-- The key of the first segment of a path, if its text can be read. -/
def Path.firstKey? (text : Text) : Option Text :=
  match ofText text with
  | .ok (s :: _) => some s.key
  | _ => none

/-- The keys that the paths of a mapping start with, those of arguments too. -/
def keysSeen (registry : Registry) (mapping : Members) : List Text :=
  mapping.flatMap fun member =>
    ((Entry.ofValue member.2).paths registry).filterMap Path.firstKey?

/-- Under each of these keys, two objects have the same value or both have none. -/
def AgreeOn (keys : List Text) (r r' : Members) : Prop :=
  ∀ key ∈ keys, Keyed.get? r key = Keyed.get? r' key

instance (keys : List Text) (r r' : Members) : Decidable (AgreeOn keys r r') :=
  inferInstanceAs (Decidable (∀ key ∈ keys, _))

/-! ### Records beside a coupling -/

variable {s s' t t' : Store} {C : Coupling s s'} {D : Coupling t t'} {keys : List Text} {a b : Nat}
  {ms ns : Keyed Text Cell}

/-- Two objects that a coupling does not know, but under these keys they hold what corresponds. -/
structure Beside (C : Coupling s s') (keys : List Text) (a b : Nat) (ms ns : Keyed Text Cell) :
    Prop where
  left : s.get? a = some (.obj ms)
  right : s'.get? b = some (.obj ns)
  apart : C.Apart [a] [b]
  members : ∀ key ∈ keys, Option.Rel (Cell.Rel C.rel) (Keyed.get? ms key) (Keyed.get? ns key)

/-- Nothing that is done alike changes objects that the coupling does not know. -/
theorem Beside.step (h : Beside C keys a b ms ns) (hstep : C.Step D) : Beside D keys a b ms ns := by
  have ha := h.apart.1 a (List.mem_singleton_self a)
  have hb := h.apart.2 b (List.mem_singleton_self b)
  have hlt := Store.lt_size_of_get? h.left
  have hlt' := Store.lt_size_of_get? h.right
  refine ⟨(hstep.left_same hlt ha).trans h.left, (hstep.right_same hlt' hb).trans h.right,
    ⟨fun x hx y hxy => ?_, fun y hy x hxy => ?_⟩, fun key hkey => ?_⟩
  · obtain rfl := List.mem_singleton.mp hx
    rcases hstep.new hxy with hxy | hnew
    · exact ha y hxy
    · exact Nat.not_le.mpr hlt hnew.1
  · obtain rfl := List.mem_singleton.mp hy
    rcases hstep.new hxy with hxy | hnew
    · exact hb x hxy
    · exact Nat.not_le.mpr hlt' hnew.2
  · have hmembers := h.members key hkey
    generalize Keyed.get? ms key = x, Keyed.get? ns key = y at hmembers
    cases hmembers with
    | none => exact .none
    | some hcd => exact .some (hstep.cell hcd)

/-- A path goes on from what is under the key of its first segment. -/
theorem Beside.readText (h : Beside C keys a b ms ns) {text : Text}
    (hkey : ∀ key, Path.firstKey? text = some key → key ∈ keys) :
    Traverse.Rel (Option.Rel (Found.Rel (Cell.Rel C.rel))) (s.look.readText (.ref a) text)
      (s'.look.readText (.ref b) text) := by
  have hview : s.look.view (.ref a) = .obj ms := by simp only [Store.look, h.left]
  have hview' : s'.look.view (.ref b) = .obj ns := by simp only [Store.look, h.right]
  unfold Look.readText
  split
  · exact .ok .none
  · cases hp : Path.ofText text with
    | error limit => exact .error limit
    | ok p =>
      obtain ⟨seg, rest, rfl⟩ := List.exists_cons_of_ne_nil (Path.ne_nil_of_ofText hp)
      have hmembers := h.members seg.key (hkey _ (by rw [Path.firstKey?, hp]))
      refine C.look.enter ?_ ?_ fun hxy => C.look.readFrom hxy rest
      · rw [Look.isNull, Look.isNull, hview, hview']
      · rw [Look.under, Look.under, hview, hview']
        exact .ok hmembers

theorem Beside.readsAlike (h : Beside C keys a b ms ns) {text : Text}
    (hkey : ∀ key, Path.firstKey? text = some key → key ∈ keys) :
    C.ReadsAlike (.ref a) (.ref b) text :=
  fun _ _ _ hstep => (h.step hstep).readText hkey

/-! ### Members that agree -/

/-- Different keys lead to different places. -/
theorem Branches.disjoint_placesUnder {ts : Branches} (h : ts.places.Nodup) {key other : Text}
    (hne : key ≠ other) : (ts.placesUnder key).Disjoint (ts.placesUnder other) := by
  induction ts with
  | nil => exact List.disjoint_nil_left _
  | cons m rest ih =>
    rw [places_cons] at h
    have hdisjoint := List.disjoint_of_nodup_append h
    have hrest : ∀ k, placesUnder rest k ⊆ places rest := fun k =>
      (placesUnder_sublist rest k).subset
    have hunder : ∀ k,
      placesUnder (m :: rest) k = if m.1 = k then m.2.places else placesUnder rest k :=
      fun k => by
        unfold placesUnder
        rw [Keyed.get?]
        split <;> rfl
    rw [hunder, hunder]
    split
    · next hk =>
      rw [if_neg fun ho => hne (hk.symm.trans ho)]
      exact List.disjoint_of_subset_right (hrest other) hdisjoint
    · split
      · exact List.Disjoint.symm (List.disjoint_of_subset_right (hrest key) hdisjoint)
      · exact ih (List.Nodup.of_append_right h)

/-- Trees whose nodes are led to once. -/
structure Branches.Sole (s : Store) (ts : Branches) : Prop where
  standing : ∀ m ∈ ts, m.2.Standing s
  full : ∀ m ∈ ts, m.2.Full
  nodup : ts.places.Nodup

/-- What two objects have under the same keys, of the same value, can be joined. -/
theorem Branches.Sole.exists_joins {ts us : Branches} (ht : ts.Sole s) (hu : us.Sole s')
    (hkeys : keys.Nodup)
    (h : ∀ key ∈ keys, (Keyed.get? ts key).map Tree.value = (Keyed.get? us key).map Tree.value)
    (C : Coupling s s') (hC : C.Apart (keys.flatMap ts.placesUnder) (keys.flatMap us.placesUnder)) :
    ∃ D : Coupling s s', C.Joins D (keys.flatMap ts.placesUnder) (keys.flatMap us.placesUnder) ∧
      ∀ key ∈ keys, Option.Rel (Cell.Rel D.rel) (Keyed.get? ts.cells key)
        (Keyed.get? us.cells key) := by
  induction keys generalizing C with
  | nil => exact ⟨C, .refl C, nofun⟩
  | cons key keys ih =>
    rw [List.nodup_cons] at hkeys
    rw [List.forall_mem_cons] at h
    rw [List.flatMap_cons, List.flatMap_cons] at hC ⊢
    have hfirst : C.Apart (ts.placesUnder key) (us.placesUnder key) :=
      ⟨fun a ha => hC.1 a (List.mem_append_left _ ha), fun b hb =>
        hC.2 b (List.mem_append_left _ hb)⟩
    have hjoin : ∃ D : Coupling s s', C.Joins D (ts.placesUnder key) (us.placesUnder key) ∧
        Option.Rel (Cell.Rel D.rel) (Keyed.get? ts.cells key) (Keyed.get? us.cells key) := by
      rw [get?_cells, get?_cells]
      have hvalue := h.1
      cases hT : Keyed.get? ts key with
      | none =>
        cases hU : Keyed.get? us key with
        | none => exact ⟨C, .refl C, .none⟩
        | some U => simp [hT, hU] at hvalue
      | some T =>
        cases hU : Keyed.get? us key with
        | none => simp [hT, hU] at hvalue
        | some U =>
          have hT' := Keyed.mem_of_get? hT
          have hU' := Keyed.mem_of_get? hU
          rw [hT, hU] at hvalue
          simp only [placesUnder, hT, hU, Option.map_some, Option.getD_some] at hfirst ⊢
          obtain ⟨D, hD, hcell⟩ := Coupling.exists_joins (ht.standing _ hT') (ht.full _ hT')
            ((List.nodup_flatMap.mp ht.nodup).1 _ hT') (hu.standing _ hU') (hu.full _ hU')
            ((List.nodup_flatMap.mp hu.nodup).1 _ hU') (Option.some.inj hvalue) C hfirst
          exact ⟨D, hD, .some hcell⟩
    obtain ⟨D, hD, hcell⟩ := hjoin
    have hrest : D.Apart (keys.flatMap ts.placesUnder) (keys.flatMap us.placesUnder) := by
      refine hD.apart
        ⟨fun a ha => hC.1 a (List.mem_append_right _ ha), fun b hb =>
          hC.2 b (List.mem_append_right _ hb)⟩
        (fun a ha hmem => ?_) fun b hb hmem => ?_
      · obtain ⟨other, hother, hmem⟩ := List.mem_flatMap.mp hmem
        exact disjoint_placesUnder ht.nodup (fun heq : key = other =>
          hkeys.1 (heq ▸ hother)) ha hmem
      · obtain ⟨other, hother, hmem⟩ := List.mem_flatMap.mp hmem
        exact disjoint_placesUnder hu.nodup (fun heq : key = other =>
          hkeys.1 (heq ▸ hother)) hb hmem
    obtain ⟨E, hE, hcells⟩ := ih hkeys.2 h.2 D hrest
    refine ⟨E, (hD.mono ?_ ?_).trans (hE.mono ?_ ?_), List.forall_mem_cons.mpr ⟨?_, hcells⟩⟩
    · exact List.subset_append_left _ _
    · exact List.subset_append_left _ _
    · exact List.subset_append_right _ _
    · exact List.subset_append_right _ _
    · generalize Keyed.get? ts.cells key = x, Keyed.get? us.cells key = y at hcell
      cases hcell with
      | none => exact .none
      | some hcd => exact .some (hcd.mono fun _ _ => hE.keeps)

/-- Records that agree are loaded beside a coupling. -/
theorem exists_beside (hs : s.Closed) {r r' : Members} (h : AgreeOn keys r r') :
    ∃ (C : Coupling (load (.obj r) s).2 (load (.obj r') s).2) (a b : Nat) (ms ns : Keyed Text Cell),
      (load (.obj r) s).1 = .ref a ∧ (load (.obj r') s).1 = .ref b ∧ Beside C keys a b ms ns ∧
        C.Fixes s.size := by
  obtain ⟨T, hT, hfull, hcell, hvalue, hgains⟩ := exists_tree_load (.obj r) s
  obtain ⟨U, hU, hfull', hcell', hvalue', hgains'⟩ := exists_tree_load (.obj r') s
  obtain ⟨a, ts, rfl, rfl⟩ := hfull.exists_obj hvalue
  obtain ⟨b, us, rfl, rfl⟩ := hfull'.exists_obj hvalue'
  rw [Tree.standing_obj] at hT hU
  rw [Tree.full_obj] at hfull hfull'
  have hnodup := hgains.nodup
  have hnodup' := hgains'.nodup
  rw [Tree.places_obj, List.nodup_cons] at hnodup hnodup'
  -- The nodes that were there correspond to themselves.
  let C := (Coupling.self hs).transfer (fun _ _ hab => hgains.grown.get?_eq hab.2)
    fun a b hab => hgains'.grown.get?_eq (hab.1 ▸ hab.2)
  have hnew : ∀ x ∈ a :: Branches.places ts, ∀ y, ¬ C.rel x y := fun x hx y hxy =>
    Nat.not_lt.mpr (hgains.new x (by rwa [Tree.places_obj])) hxy.2
  have hnew' : ∀ y ∈ b :: Branches.places us, ∀ x, ¬ C.rel x y := fun y hy x hxy =>
    Nat.not_lt.mpr (hgains'.new y (by rwa [Tree.places_obj])) (hxy.1 ▸ hxy.2)
  have hunder : ∀ ts : Branches, keys.dedup.flatMap ts.placesUnder ⊆ ts.places := fun ts x hx =>
    let ⟨key, _, hx⟩ := List.mem_flatMap.mp hx
    (Branches.placesUnder_sublist ts key).subset hx
  obtain ⟨D, hD, hmembers⟩ := Branches.Sole.exists_joins ⟨hT.2, hfull, hnodup.2⟩
    ⟨hU.2, hfull', hnodup'.2⟩ keys.nodup_dedup (fun key hkey => by
      rw [← Branches.get?_values, ← Branches.get?_values]
      exact h key (List.mem_dedup.mp hkey)) C
    ⟨fun x hx => hnew x (List.mem_cons_of_mem _ (hunder ts hx)),
      fun y hy => hnew' y (List.mem_cons_of_mem _ (hunder us hy))⟩
  refine ⟨D, a, b, Branches.cells ts, Branches.cells us, hcell.symm, hcell'.symm,
    ⟨hT.1, hU.1, ?_, fun key hkey => hmembers key (List.mem_dedup.mpr hkey)⟩,
    fun x hx => hD.keeps ⟨rfl, hx⟩⟩
  refine hD.apart ⟨fun x hx => hnew x ?_, fun y hy => hnew' y ?_⟩ ?_ ?_
  · exact List.mem_cons.mpr (.inl (List.mem_singleton.mp hx))
  · exact List.mem_cons.mpr (.inl (List.mem_singleton.mp hy))
  · exact List.disjoint_singleton.mpr fun ha => hnodup.1 (hunder ts ha)
  · exact List.disjoint_singleton.mpr fun hb => hnodup'.1 (hunder us hb)

variable {registry : Registry} {mapping r r' : Members}

/-- Records that agree on what a mapping sees of them come to the same output, with the same
warnings, or they are stopped by the same. -/
theorem mapRecord_agreeOn (room : Nat) (hs : s.Closed) (hpure : registry.Pure s.size)
    (h : AgreeOn (keysSeen registry mapping) r r') :
    let x := load (.obj r) s
    let x' := load (.obj r') s
    let o := mapRecord room registry mapping x.1 x.2
    let o' := mapRecord room registry mapping x'.1 x'.2
    (∃ mapped mapped', o.result = .ok mapped ∧ o'.result = .ok mapped' ∧
      o.store.Same o'.store mapped.output mapped'.output ∧ mapped.warnings = mapped'.warnings) ∨
    ∃ stop, o.result = .error stop ∧ o'.result = .error stop := by
  intro x x'
  obtain ⟨C, a, b, ms, ns, ha, hb, hbeside, hC⟩ := exists_beside hs h
  obtain ⟨⟨D, -, hresult⟩, -⟩ := @mapRecord_ends x.2 x'.2 room s.size registry x.1 x'.1 hpure C hC
    mapping fun member hm text ht => by
      rw [ha, hb]
      exact hbeside.readsAlike fun key hkey =>
        List.mem_flatMap.mpr ⟨member, hm, List.mem_filterMap.mpr ⟨text, ht, hkey⟩⟩
  intro o o'
  change Traverse.Rel (Mapped.Rel D.rel) o.result o'.result at hresult
  generalize o.result = result, o'.result = result' at hresult
  cases hresult with
  | error stop => exact .inr ⟨stop, rfl, rfl⟩
  | ok hmapped => exact .inl ⟨_, _, rfl, rfl, ⟨D, hmapped.output⟩, hmapped.warnings⟩

/-- Arguments, an index and a wildcard, a literal that is written like a path, a directive that is
no argument but an object, a transform that fails, and one that answers with a part of the record
that a target leads into. -/
theorem mapRecord_agreeOn_kinds :
    let registry := Registry.ofList [("same", .function .same)]
    let mapping : Members := [("t", .str "a[].b"), ("u", .str "=secret"),
      ("v", .obj [("$transform", .str "same"), ("$args", .list [.str "c[0]"])]),
      ("v.d", .str "=new"), ("x", .str "c[0].d"),
      ("y", .obj [("$transform", .str "same"), ("$args", .list [.str "c",
        .obj [("$transform", .str "secret")]])]),
      ("w", .obj [("$transform", .str "secret"), ("$path", .str "secret")])]
    let seen : Members := [("a", .list [.obj [("b", .int 1)], .obj []]),
      ("c", .list [.obj [("secret", .null)]])]
    let x := load (.obj seen) {}
    let x' := load (.obj (("secret", .list [.int 2]) :: seen.reverse)) {}
    let o := mapRecord 100 registry mapping x.1 x.2
    let o' := mapRecord 100 registry mapping x'.1 x'.2
    ∃ mapped mapped', o.result = .ok mapped ∧ o'.result = .ok mapped' ∧
      o.store.Same o'.store mapped.output mapped'.output ∧ mapped.warnings = mapped'.warnings := by
  intro registry mapping seen x x'
  have h : AgreeOn (keysSeen registry mapping) seen
    (("secret", .list [.int 2]) :: seen.reverse) := by
    decide +kernel
  have hreturns : (mapRecord 100 registry mapping x.1 x.2).result.isOk = true := by decide +kernel
  have hpure : registry.Pure 0 := Registry.pure_ofList fun q hq => by
    obtain rfl := List.mem_singleton.mp hq
    exact Transform.pure_same
  refine (mapRecord_agreeOn 100 Store.closed_empty hpure h).resolve_right ?_
  rintro ⟨stop, hstop, -⟩
  rw [hstop] at hreturns
  cases hreturns

end Reshape

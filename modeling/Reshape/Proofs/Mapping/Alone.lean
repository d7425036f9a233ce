import Reshape.Proofs.Mapping.Batch
import Reshape.Proofs.Mapping.Correspondence
import Reshape.Proofs.Store.Seeds
import Reshape.Proofs.Store.Shown

/-!
# Each record by itself

Where the records of a list share no nodes and transforms keep none, the mapping of one record
touches nothing that another one leads to or has come to (`Batch.Apart.take`). So each record comes
to what it would come to if it were the only one, in whatever order the records are taken, and a
list comes to what is gathered of that (`mapInput_yields`).
-/

namespace Reshape

/-- Trees in a store that have no node in common. -/
structure Forest (s : Store) (trees : List Tree) : Prop where
  standing : ∀ t ∈ trees, t.Standing s
  full : ∀ t ∈ trees, t.Full
  nodup : (trees.flatMap Tree.places).Nodup

theorem Forest.disjoint {s : Store} {trees : List Tree} (h : Forest s trees) {i j : Nat}
    {t u : Tree}
    (ht : trees[i]? = some t) (hu : trees[j]? = some u) (hij : i ≠ j) :
    t.places.Disjoint u.places := by
  have hpair := List.pairwise_iff_getElem.mp (List.nodup_flatMap.mp h.nodup).2
  obtain ⟨hi, rfl⟩ := List.getElem?_eq_some_iff.mp ht
  obtain ⟨hj, rfl⟩ := List.getElem?_eq_some_iff.mp hu
  rcases Nat.lt_or_gt_of_ne hij with hlt | hgt
  · exact hpair i j hi hj hlt
  · exact fun a ha hb => hpair j i hj hi hgt hb ha

variable {room : Nat} {registry : Registry} {mapping : Members} {s : Store} {trees : List Tree}

namespace Batch

/-- The nodes of each record that waits are what they were, and each record that is finished has
come to what it comes to by itself, at its own nodes and new ones. -/
structure Apart (work : Cell → Store → Outcome Mapped) (s : Store) (trees : List Tree) (p : Batch) :
    Prop where
  size_le : s.size ≤ p.store.size
  waiting : ∀ (i : Nat) (t : Tree), trees[i]? = some t → Keyed.get? p.finished i = none →
    ∀ a ∈ t.places, p.store.get? a = s.get? a
  finished : ∀ (i : Nat) (t : Tree) (result : Except Stop Mapped), trees[i]? = some t →
    Keyed.get? p.finished i = some result →
    ∃ D : Coupling (work t.cell s).store p.store,
      Traverse.Rel (Mapped.Rel D.rel) (work t.cell s).result result ∧
        ∀ {a b}, D.rel a b → b ∈ t.places ∨ s.size ≤ b

theorem apart_start (work : Cell → Store → Outcome Mapped) (s : Store) (trees : List Tree) :
    Apart work s trees { store := s } where
  size_le := Nat.le_refl _
  waiting _ _ _ _ _ _ := rfl
  finished _ _ _ _ h := by cases h

variable {p : Batch} {i : Nat} {t : Tree}

theorem Apart.take (h : p.Apart (mapRecord room registry mapping) s trees)
    (hforest : Forest s trees)
    (hpure : registry.Pure 0) (hi : trees[i]? = some t)
    (hfinished : Keyed.get? p.finished i = none) :
    (p.take (mapRecord room registry mapping) i t.cell).2.Apart (mapRecord room registry mapping) s
      trees := by
  have ht := hforest.standing t (List.mem_of_getElem? hi)
  have hfull := hforest.full t (List.mem_of_getElem? hi)
  -- The record's own nodes correspond to themselves.
  let C : Coupling s p.store := (Coupling.within (ht.closedUnder hfull)).transfer (fun _ _ _ => rfl)
    fun a b hab => h.waiting i t hi hfinished b (hab.1 ▸ hab.2)
  have hrecord : Cell.Rel C.rel t.cell t.cell := Cell.rel_self fun a ha => ⟨rfl, ht.live hfull ha⟩
  obtain ⟨⟨D, hstep, hresult⟩, -⟩ := @mapRecord_ends s p.store room 0 registry t.cell t.cell hpure C
    nofun mapping fun _ _ text _ => C.readsAlike hrecord text
  -- What other records have is none of them.
  have hother : ∀ {j u}, trees[j]? = some u → j ≠ i → ∀ a ∈ u.places, ∀ x, ¬ C.rel x a :=
    fun hu hj a ha x hx => hforest.disjoint hu hi hj ha (hx.1 ▸ hx.2)
  rw [take_of_unfinished hfinished]
  refine ⟨Nat.le_trans h.size_le hstep.right_size, fun j u hu hwaits a ha => ?_,
    fun j u result hu hdone => ?_⟩
  · have hj : j ≠ i := by
      rintro rfl
      rw [Keyed.get?_put_self] at hwaits
      cases hwaits
    rw [Keyed.get?_put_of_ne _ _ hj] at hwaits
    have hlt := (hforest.standing u (List.mem_of_getElem? hu)).lt_size ha
    exact (hstep.right_same (Nat.lt_of_lt_of_le hlt h.size_le) (hother hu hj a ha)).trans
      (h.waiting j u hu hwaits a ha)
  · by_cases hj : j = i
    · subst hj
      rw [Keyed.get?_put_self] at hdone
      cases hdone
      obtain rfl : t = u := Option.some.inj (hi.symm.trans hu)
      refine ⟨D, hresult, fun hab => ?_⟩
      rcases hstep.new hab with hab | hab
      · exact .inl (hab.1 ▸ hab.2)
      · exact .inr (Nat.le_trans h.size_le hab.2)
    · rw [Keyed.get?_put_of_ne _ _ hj] at hdone
      obtain ⟨E, hrel, hsupport⟩ := h.finished j u result hu hdone
      refine ⟨E.transfer (fun _ _ _ => rfl) fun a b hab => ?_, hrel, hsupport⟩
      refine hstep.right_same (E.lt_right hab) fun x hx => ?_
      rcases hsupport hab with hb | hb
      · exact hother hu hj b hb x hx
      · exact Nat.not_lt.mpr hb (ht.lt_size (hx.1 ▸ hx.2))

/-- What was not stopped is finished. -/
theorem get?_finished_of_resultAt {m : Mapped} (h : p.resultAt i = .ok m) :
    Keyed.get? p.finished i = some (.ok m) := by
  unfold resultAt at h
  cases hfinished : Keyed.get? p.finished i with
  | none =>
    rw [hfinished] at h
    cases h
  | some result =>
    rw [hfinished] at h
    rw [← h]
    rfl

end Batch

/-- The record comes to the same in two outcomes: to the same output and warnings, or to the same
stop. -/
inductive Outcome.Same (o : Outcome Mapped) (t : Store) : Except Stop Mapped → Prop
  | ok {own m : Mapped} (result : o.result = .ok own) (warnings : own.warnings = m.warnings)
      (output : o.store.Same t own.output m.output) : o.Same t (.ok m)
  | error {stop : Stop} (result : o.result = .error stop) : o.Same t (.error stop)

/-- What is gathered of records that come to something each by itself: all of it, or the first stop.
-/
inductive Gathers (alone : Cell → Outcome Mapped) (records : List Cell) (t : Store) :
    Except Stop (List Mapped) → Prop
  | mapped {ms : List Mapped}
      (each : List.Forall₂ (fun record m => (alone record).Same t (.ok m)) records ms) :
      Gathers alone records t (.ok ms)
  | stopped {before after : List Cell} {record : Cell} {stop : Stop}
      (split : records = before ++ record :: after)
      (fine : ∀ other ∈ before, ∃ own, (alone other).result = .ok own)
      (stops : (alone record).result = .error stop) : Gathers alone records t (.error stop)

namespace Batch

variable {work : Cell → Store → Outcome Mapped} {q : Batch} {i : Nat} {t : Tree}
  {result : Except Stop Mapped}

theorem Apart.same (h : q.Apart work s trees) (hi : trees[i]? = some t)
    (hresult : Keyed.get? q.finished i = some result) :
    (work t.cell s).Same q.store result := by
  obtain ⟨D, hrel, -⟩ := h.finished i t result hi hresult
  generalize hown : (work t.cell s).result = own at hrel
  cases hrel with
  | ok hm => exact .ok hown hm.warnings ⟨D, hm.output⟩
  | error stop => exact .error hown

/-- What was finished, position by position, is what is gathered. -/
theorem Apart.gathers (h : q.Apart work s trees)
    (hfirst : ∀ i < trees.length, (∀ j < i, ∃ m, q.resultAt j = .ok m) →
      ∃ result, Keyed.get? q.finished i = some result) :
    Gathers (fun record => work record s) (trees.map Tree.cell) q.store
      ((List.range trees.length).mapM q.resultAt) := by
  cases hresult : (List.range trees.length).mapM q.resultAt with
  | ok ms =>
    have hms := Traverse.mapM_eq_ok_iff.mp hresult
    have hlength : trees.length = ms.length := by
      simpa using congrArg List.length hms
    refine .mapped (List.forall₂_iff_get.mpr ⟨by rw [List.length_map, hlength], fun i hi hi' => ?_⟩)
    have hlt : i < trees.length := by rwa [List.length_map] at hi
    have hm : q.resultAt i = .ok ms[i] := by
      have hget := congrArg (·[i]?) hms
      simpa [hlt, hi'] using hget
    have hsame := h.same (List.getElem?_eq_getElem hlt) (get?_finished_of_resultAt hm)
    simpa using hsame
  | error stop =>
    obtain ⟨k, hk, hstop, hbefore⟩ := Traverse.exists_first_of_mapM_range hresult
    obtain ⟨result, hfinished⟩ := hfirst k hk hbefore
    obtain rfl : result = .error stop := by
      rwa [resultAt, hfinished] at hstop
    have hsplit : trees = trees.take k ++ trees[k] :: trees.drop (k + 1) := by
      rw [List.getElem_cons_drop, List.take_append_drop]
    have hcells : trees.map Tree.cell =
        (trees.take k).map Tree.cell ++ trees[k].cell :: (trees.drop (k + 1)).map Tree.cell := by
      conv_lhs => rw [hsplit]
      rw [List.map_append, List.map_cons]
    refine .stopped hcells (fun other hother => ?_) ?_
    · obtain ⟨t, ht, rfl⟩ := List.mem_map.mp hother
      obtain ⟨j, hj, rfl⟩ := List.getElem_of_mem ht
      rw [List.length_take] at hj
      obtain ⟨m, hm⟩ := hbefore j (by omega)
      have hsame := h.same (List.getElem?_eq_getElem (show j < trees.length by omega))
        (get?_finished_of_resultAt hm)
      cases hsame with
      | ok hown => exact ⟨_, by rwa [List.getElem_take]⟩
    · cases h.same (List.getElem?_eq_getElem hk) hfinished with
      | error hown => exact hown

end Batch

/-- The order in which records are taken makes no difference. -/
theorem mapRecords_gathers (hforest : Forest s trees) (hpure : registry.Pure 0) (order : List Nat) :
    let o := mapRecords (mapRecord room registry mapping) order (trees.map Tree.cell) s
    Gathers (fun record => mapRecord room registry mapping record s) (trees.map Tree.cell) o.store
      o.result := by
  obtain ⟨q, hq, ho, hfirst⟩ := @mapRecords_induct (mapRecord room registry mapping)
    (trees.map Tree.cell) order s (Batch.Apart (mapRecord room registry mapping) s trees)
    (Batch.apart_start _ s trees) fun p i record hi hfinished h => by
      rw [List.getElem?_map] at hi
      obtain ⟨t, ht, rfl⟩ := Option.map_eq_some_iff.mp hi
      exact h.take hforest hpure ht hfinished
  rw [List.length_map] at hfirst ho
  rw [ho]
  exact hq.gathers hfirst

/-! ### Whole inputs -/

theorem Store.Same.mono {s t u : Store} {c d : Cell} (h : s.Same t c d) (hext : t.Extends u) :
    s.Same u c d :=
  let ⟨C, hcd⟩ := h
  ⟨C.transfer (fun _ _ _ => rfl) fun _ _ hab => hext.get?_eq (C.lt_right hab), hcd⟩

theorem Outcome.Same.mono {o : Outcome Mapped} {t u : Store} {result : Except Stop Mapped}
    (h : o.Same t result) (hext : t.Extends u) : o.Same u result := by
  cases h with
  | ok hresult hwarnings houtput => exact .ok hresult hwarnings (houtput.mono hext)
  | error hresult => exact .error hresult

/-- What an input comes to, told by what each of its records comes to alone: one record to its own
output, a list to the list of the outputs with all warnings in order, or to the stop of the first
record that is stopped. -/
inductive Yields (alone : Cell → Outcome Mapped) (s : Store) (input : Cell) (t : Store) :
    Except Stop Mapped → Prop
  | record {result : Except Stop Mapped} (single : s.elements? input = none)
      (same : (alone input).Same t result) : Yields alone s input t result
  | batch {records : List Cell} {ms : List Mapped} {m : Mapped}
      (several : s.elements? input = some records)
      (each : List.Forall₂ (fun record m => (alone record).Same t (.ok m)) records ms)
      (outputs : t.elements? m.output = some (ms.map (·.output)))
      (warnings : m.warnings = ms.flatMap (·.warnings)) : Yields alone s input t (.ok m)
  | stopped {before after : List Cell} {record : Cell} {stop : Stop}
      (several : s.elements? input = some (before ++ record :: after))
      (fine : ∀ other ∈ before, ∃ own, (alone other).result = .ok own)
      (stops : (alone record).result = .error stop) : Yields alone s input t (.error stop)

theorem Gathers.yields {alone : Cell → Outcome Mapped} {input : Cell} {records : List Cell}
    {o : Outcome (List Mapped)} (hrecords : s.elements? input = some records)
    (h : Gathers alone records o.store o.result) :
    Yields alone s input o.ofRecords.store o.ofRecords.result := by
  unfold Outcome.ofRecords
  generalize o.result = result at h
  cases h with
  | stopped split fine stops => exact .stopped (hrecords.trans (congrArg some split)) fine stops
  | @mapped ms each =>
    refine .batch hrecords (each.imp fun _ _ hsame => hsame.mono (Store.Extends.push _ _)) ?_ rfl
    simp [Store.elements?, Store.get?_push]

/-- How many calls fit where a record of an input is mapped. -/
def recordRoom (room : Nat) (workers : Option Workers) (s : Store) (input : Cell) : Nat :=
  match s.elements? input, workers with
  | none, _ => room - 1
  | some _, none => room - 2
  | some _, some w => w.room

/-- A tree of which the node is a list is the list of its elements. -/
theorem Tree.Standing.exists_list {t : Tree} {records : List Cell} (ht : t.Standing s)
    (hfull : t.Full) (h : s.elements? t.cell = some records) :
    ∃ a xs, t = .list a xs ∧ records = xs.map Tree.cell := by
  cases t with
  | leaf c v =>
    obtain ⟨x, rfl, -⟩ := hfull.exists_scalar
    cases h
  | list a xs =>
    rw [standing_list] at ht
    refine ⟨a, xs, rfl, ?_⟩
    simpa [Store.elements?, ht.1] using h.symm
  | obj a ms =>
    rw [standing_obj] at ht
    simp [Store.elements?, ht.1] at h

theorem Forest.of_list {a : Nat} {xs : List Tree} (ht : (Tree.list a xs).Standing s)
    (hfull : (Tree.list a xs).Full) (hnodup : (Tree.list a xs).places.Nodup) : Forest s xs where
  standing := ((Tree.standing_list a xs s).mp ht).2
  full := (Tree.full_list a xs).mp hfull
  nodup := by
    rw [Tree.places_list] at hnodup
    exact (List.nodup_cons.mp hnodup).2

/-- Mapping a record again where it was mapped comes to the same. -/
theorem mapRecord_same {t : Tree} (ht : t.Standing s) (hfull : t.Full) (hpure : registry.Pure 0) :
    (mapRecord room registry mapping t.cell s).Same (mapRecord room registry mapping t.cell s).store
      (mapRecord room registry mapping t.cell s).result := by
  let C := Coupling.within (ht.closedUnder hfull)
  have hrecord : Cell.Rel C.rel t.cell t.cell := Cell.rel_self fun a ha => ⟨rfl, ht.live hfull ha⟩
  obtain ⟨⟨D, -, hresult⟩, -⟩ :=
    @mapRecord_ends s s room 0 registry t.cell t.cell hpure C nofun mapping
    fun _ _ text _ => C.readsAlike hrecord text
  change Traverse.Rel (Mapped.Rel D.rel) (mapRecord room registry mapping t.cell s).result
    (mapRecord room registry mapping t.cell s).result at hresult
  generalize hown : (mapRecord room registry mapping t.cell s).result = own at hresult ⊢
  cases hresult with
  | ok hm => exact .ok hown hm.warnings ⟨D, hm.output⟩
  | error stop => exact .error hown

/-- An input comes to what its records come to, each alone where it is mapped. -/
theorem mapInput_yields {t : Tree} (ht : t.Standing s) (hfull : t.Full) (hnodup : t.places.Nodup)
    (hpure : registry.Pure 0) (room : Nat) (workers : Option Workers) :
    let o := mapInput room workers registry mapping t.cell s
    Yields (fun record => mapRecord (recordRoom room workers s t.cell) registry mapping record s) s
      t.cell o.store o.result := by
  unfold mapInput recordRoom
  cases hrecords : s.elements? t.cell with
  | none => exact .record hrecords (mapRecord_same ht hfull hpure)
  | some records =>
    obtain ⟨a, xs, rfl, rfl⟩ := ht.exists_list hfull hrecords
    have hforest := Forest.of_list ht hfull hnodup
    cases workers with
    | none => exact (mapRecords_gathers hforest hpure []).yields hrecords
    | some w =>
      exact (mapRecords_gathers hforest hpure
        (w.schedule (xs.map Tree.cell).length)).yields hrecords

end Reshape

import Mathlib.Data.List.Basic
import Reshape.Mapping
import Reshape.Proofs.Traverse

/-!
# Lists of records

Workers may take the records of a list in any order; what is left is mapped when the results are
gathered, in the order of the list and up to the first record that is stopped. What every record
that is mapped preserves, the whole list preserves (`mapRecords_induct`), and the result is told by
what was finished (`Batch.gather_result`). The list is mapped exactly if each record is when its
turn comes (`mapRecords_ok_iff`).
-/

namespace Reshape

namespace Batch

variable {work : Cell → Store → Outcome Mapped} {records rest : List Cell} {record : Cell}
  {p q : Batch} {i k : Nat} {order : List Nat}

/-! ### Taking a record -/

theorem take_of_finished {result : Except Stop Mapped} (h : Keyed.get? p.finished i = some result)
    (record : Cell) : p.take work i record = (result, p) := by
  rw [take, h]

theorem take_of_unfinished (h : Keyed.get? p.finished i = none) (record : Cell) :
    p.take work i record = ((work record p.store).result,
      { finished := Keyed.put p.finished i (work record p.store).result
        store := (work record p.store).store
        journal := p.journal ++ (work record p.store).journal }) := by
  rw [take, h]

/-- What a record that is taken comes to is under its position afterwards. -/
theorem get?_finished_take (record : Cell) :
    Keyed.get? (p.take work i record).2.finished i = some (p.take work i record).1 := by
  cases h : Keyed.get? p.finished i with
  | some result => rw [take_of_finished h, h]
  | none =>
    rw [take_of_unfinished h]
    exact Keyed.get?_put_self _ i _

/-- Taking a record leaves alone what the others came to. -/
theorem get?_finished_take_of_ne {j : Nat} (h : j ≠ i) (record : Cell) :
    Keyed.get? (p.take work i record).2.finished j = Keyed.get? p.finished j := by
  cases hi : Keyed.get? p.finished i with
  | some result => rw [take_of_finished hi]
  | none =>
    rw [take_of_unfinished hi]
    exact Keyed.get?_put_of_ne _ _ h

theorem takeAt_of_getElem? (h : records[i]? = some record) :
    p.takeAt work records i = (p.take work i record).2 := by
  rw [takeAt, h]

/-! ### Gathering -/

/-- What was finished at a position. -/
def resultAt (p : Batch) (i : Nat) : Except Stop Mapped :=
  (Keyed.get? p.finished i).getD (.error .aborted)

theorem gather_cons_error {stop : Stop} (h : p.take work k record = (.error stop, q)) :
    p.gather work k (record :: rest) = (.error stop, q) := by
  rw [gather, h]

theorem gather_cons_ok {m : Mapped} (h : p.take work k record = (.ok m, q)) :
    p.gather work k (record :: rest) =
      ((q.gather work (k + 1) rest).1.map (m :: ·), (q.gather work (k + 1) rest).2) := by
  rw [gather, h]

/-- Gathering leaves alone what was finished before its first position. -/
theorem get?_finished_gather (h : i < k) :
    Keyed.get? (p.gather work k rest).2.finished i = Keyed.get? p.finished i := by
  induction rest generalizing p k with
  | nil => rfl
  | cons record rest ih =>
    have hother : Keyed.get? (p.take work k record).2.finished i = Keyed.get? p.finished i :=
      get?_finished_take_of_ne (Nat.ne_of_lt h) record
    generalize htake : p.take work k record = r at hother
    obtain ⟨_ | m, q⟩ := r
    · rw [gather_cons_error htake]
      exact hother
    · rw [gather_cons_ok htake]
      exact (ih (Nat.lt_succ_of_lt h)).trans hother

/-- What is gathered is what was finished, position by position, up to the first that was stopped.
-/
theorem gather_result (p : Batch) (k : Nat) (records : List Cell) :
    (p.gather work k records).1 =
      (List.range' k records.length).mapM (p.gather work k records).2.resultAt := by
  induction records generalizing p k with
  | nil => rfl
  | cons record rest ih =>
    have hown : Keyed.get? (p.take work k record).2.finished k = some (p.take work k record).1 :=
      get?_finished_take record
    rw [List.length_cons, List.range'_succ, List.mapM_cons]
    generalize htake : p.take work k record = r at hown
    obtain ⟨_ | m, q⟩ := r
    · rw [gather_cons_error htake, resultAt, hown]
      rfl
    · have hkept : Keyed.get? (q.gather work (k + 1) rest).2.finished k = some (.ok m) :=
        (get?_finished_gather (Nat.lt_succ_self k)).trans hown
      rw [gather_cons_ok htake, ih q (k + 1)]
      dsimp only
      rw [show resultAt (q.gather work (k + 1) rest).2 k = .ok m by rw [resultAt, hkept]; rfl]
      cases (List.range' (k + 1) rest.length).mapM (resultAt (q.gather work (k + 1) rest).2) <;> rfl

/-- A position is finished if what was finished before it was not stopped. -/
theorem exists_finished_gather (p : Batch) (k : Nat) {records : List Cell} {i : Nat}
    (hi : i < records.length)
    (hbefore : ∀ j < i, ∃ m, (p.gather work k records).2.resultAt (k + j) = .ok m) :
    ∃ result, Keyed.get? (p.gather work k records).2.finished (k + i) = some result := by
  induction records generalizing p k i with
  | nil => exact absurd hi (Nat.not_lt_zero i)
  | cons record rest ih =>
    have hown : Keyed.get? (p.take work k record).2.finished k = some (p.take work k record).1 :=
      get?_finished_take record
    generalize htake : p.take work k record = r at hown
    obtain ⟨_ | m, q⟩ := r
    · rw [gather_cons_error htake] at hbefore ⊢
      cases i with
      | zero => exact ⟨_, hown⟩
      | succ i =>
        obtain ⟨m, hm⟩ := hbefore 0 (Nat.zero_lt_succ i)
        rw [Nat.add_zero, resultAt, hown] at hm
        cases hm
    · rw [gather_cons_ok htake] at hbefore ⊢
      cases i with
      | zero => exact ⟨_, (get?_finished_gather (Nat.lt_succ_self k)).trans hown⟩
      | succ i =>
        have hnext := ih q (k + 1) (Nat.lt_of_succ_lt_succ hi) fun j hj => by
          rw [Nat.add_assoc, Nat.add_comm 1 j]
          exact hbefore (j + 1) (Nat.succ_lt_succ hj)
        rwa [Nat.add_assoc, Nat.add_comm 1 i] at hnext

/-! ### What is preserved -/

section

variable {I : Batch → Prop}
  (hstep : ∀ (p : Batch) (i : Nat) (record : Cell), records[i]? = some record →
    Keyed.get? p.finished i = none → I p → I (p.take work i record).2)

include hstep

theorem take_induct (h : I p) (hi : records[i]? = some record) : I (p.take work i record).2 := by
  cases hfinished : Keyed.get? p.finished i with
  | some result =>
    rw [take_of_finished hfinished]
    exact h
  | none => exact hstep p i record hi hfinished h

theorem foldl_takeAt_induct (h : I p) (order : List Nat) :
    I (order.foldl (takeAt work records) p) := by
  induction order generalizing p with
  | nil => exact h
  | cons i order ih =>
    refine ih ?_
    cases hi : records[i]? with
    | none =>
      rw [takeAt, hi]
      exact h
    | some record =>
      rw [takeAt_of_getElem? hi]
      exact take_induct hstep h hi

theorem gather_induct (h : I p) (hrest : ∀ j record, rest[j]? = some record →
    records[k + j]? = some record) : I (p.gather work k rest).2 := by
  induction rest generalizing p k with
  | nil => exact h
  | cons record rest ih =>
    have htaken := take_induct hstep h (hrest 0 record rfl)
    rw [Nat.add_zero] at htaken
    generalize htake : p.take work k record = r at htaken
    obtain ⟨_ | m, q⟩ := r
    · rw [gather_cons_error htake]
      exact htaken
    · rw [gather_cons_ok htake]
      refine ih htaken fun j record hj => ?_
      rw [Nat.add_assoc, Nat.add_comm 1 j]
      exact hrest (j + 1) record hj

end

/-! ### Turns -/

/-- Of the records from a position on, those whose positions were not taken. -/
def others (taken : List Nat) : Nat → List Cell → List Cell
  | _, [] => []
  | k, record :: rest =>
    if k ∈ taken then others taken (k + 1) rest else record :: others taken (k + 1) rest

/-- The records in the order in which they are mapped: those that workers take, each once, and then
those that are left. -/
def turns (records : List Cell) : (taken order : List Nat) → List Cell
  | taken, [] => others taken 0 records
  | taken, i :: order =>
    if i ∈ taken then turns records taken order
    else match records[i]? with
      | some record => record :: turns records (i :: taken) order
      | none => turns records taken order

/-- Records are mapped one after the other, and none is stopped. -/
inductive Goes (work : Cell → Store → Outcome Mapped) : List Cell → Store → Prop
  | nil (s : Store) : Goes work [] s
  | cons {record : Cell} {rest : List Cell} {s : Store} {m : Mapped}
      (first : (work record s).result = .ok m) (then' : Goes work rest (work record s).store) :
      Goes work (record :: rest) s

theorem goes_cons_iff {s : Store} :
    Goes work (record :: rest) s ↔
      (∃ m, (work record s).result = .ok m) ∧ Goes work rest (work record s).store := by
  constructor
  · rintro ⟨⟩
    exact ⟨⟨_, ‹_›⟩, ‹_›⟩
  · rintro ⟨⟨m, hm⟩, hrest⟩
    exact .cons hm hrest

/-- These are the positions that were finished. -/
def Taken (p : Batch) (taken : List Nat) : Prop :=
  ∀ i, i ∈ taken ↔ ∃ result, Keyed.get? p.finished i = some result

/-- What was finished from a position on was not stopped. -/
def FineFrom (p : Batch) (k : Nat) : Prop :=
  ∀ i, k ≤ i → ∀ result, Keyed.get? p.finished i = some result → ∃ m, result = .ok m

theorem taken_take {taken : List Nat} (h : p.Taken taken) (i : Nat) (record : Cell) :
    (p.take work i record).2.Taken (i :: taken) := by
  intro j
  by_cases hj : j = i
  · subst hj
    simp [get?_finished_take record]
  · rw [List.mem_cons, or_iff_right hj, h j, get?_finished_take_of_ne hj]

theorem fineFrom_take (h : p.FineFrom k) {m : Mapped}
    (hm : (p.take work i record).1 = .ok m) : (p.take work i record).2.FineFrom k := by
  intro j hj result hresult
  by_cases hji : j = i
  · subst hji
    rw [get?_finished_take record, hm] at hresult
    cases hresult
    exact ⟨m, rfl⟩
  · rw [get?_finished_take_of_ne hji] at hresult
    exact h j hj result hresult

/-- Only the positions from the first on are looked at. -/
theorem others_congr {taken taken' : List Nat} (h : ∀ i, k ≤ i → (i ∈ taken ↔ i ∈ taken')) :
    others taken k rest = others taken' k rest := by
  induction rest generalizing k with
  | nil => rfl
  | cons record rest ih =>
    rw [others, others, ih fun i hi => h i (Nat.le_of_succ_le hi)]
    by_cases hk : k ∈ taken
    · rw [if_pos hk, if_pos ((h k (Nat.le_refl k)).mp hk)]
    · rw [if_neg hk, if_neg fun hk' => hk ((h k (Nat.le_refl k)).mpr hk')]

theorem gather_ok_iff {taken : List Nat} (htaken : p.Taken taken) (hfine : p.FineFrom k) :
    (∃ ms, (p.gather work k rest).1 = .ok ms) ↔ Goes work (others taken k rest) p.store := by
  induction rest generalizing p k taken with
  | nil => exact ⟨fun _ => .nil _, fun _ => ⟨[], rfl⟩⟩
  | cons record rest ih =>
    have hmap : ∀ {m : Mapped} {x : Except Stop (List Mapped)},
        (∃ ms, x.map (m :: ·) = .ok ms) ↔ ∃ ms, x = .ok ms := fun {m x} => by
      cases x <;> simp [Except.map]
    rw [others]
    cases hk : Keyed.get? p.finished k with
    | some result =>
      obtain ⟨m, rfl⟩ := hfine k (Nat.le_refl k) result hk
      rw [if_pos ((htaken k).mpr ⟨_, hk⟩), gather_cons_ok (take_of_finished hk record), hmap]
      exact ih htaken fun i hi => hfine i (Nat.le_of_succ_le hi)
    | none =>
      have hnot : k ∉ taken := fun hmem => by
        obtain ⟨result, hresult⟩ := (htaken k).mp hmem
        cases hk.symm.trans hresult
      rw [if_neg hnot, goes_cons_iff]
      have htake : p.take work k record = _ := take_of_unfinished hk record
      cases hresult : (work record p.store).result with
      | error stop =>
        rw [hresult] at htake
        rw [gather_cons_error htake]
        simp
      | ok m =>
        rw [hresult] at htake
        have hm : (p.take work k record).1 = .ok m := by rw [htake]
        have hstore : (p.take work k record).2.store = (work record p.store).store := by rw [htake]
        have hothers : others (k :: taken) (k + 1) rest = others taken (k + 1) rest :=
          others_congr fun i hi => by rw [List.mem_cons, or_iff_right fun e : i = k => by omega]
        rw [gather_cons_ok (Prod.ext hm rfl), hmap,
          ih (taken_take htaken k record)
            fun i hi => fineFrom_take hfine hm i (Nat.le_of_succ_le hi), hstore, hothers]
        simp

/-- A stop that was finished stays. -/
theorem resultAt_foldl_takeAt {stop : Stop} (h : Keyed.get? p.finished i = some (.error stop)) :
    Keyed.get? (order.foldl (takeAt work records) p).finished i = some (.error stop) := by
  induction order generalizing p with
  | nil => exact h
  | cons j order ih =>
    refine ih ?_
    cases hj : records[j]? with
    | none =>
      rw [takeAt, hj]
      exact h
    | some record =>
      rw [takeAt_of_getElem? hj]
      by_cases hij : i = j
      · subst hij
        rw [take_of_finished h, h]
      · rw [get?_finished_take_of_ne hij, h]

theorem get?_finished_gather_error {stop : Stop}
    (h : Keyed.get? p.finished i = some (.error stop)) :
    Keyed.get? (p.gather work k rest).2.finished i = some (.error stop) := by
  induction rest generalizing p k with
  | nil => exact h
  | cons record rest ih =>
    have htaken : Keyed.get? (p.take work k record).2.finished i = some (.error stop) := by
      by_cases hik : i = k
      · subst hik
        rw [take_of_finished h, h]
      · rw [get?_finished_take_of_ne hik, h]
    generalize htake : p.take work k record = r at htaken
    obtain ⟨_ | m, q⟩ := r
    · rw [gather_cons_error htake]
      exact htaken
    · rw [gather_cons_ok htake]
      exact ih htaken

/-- A record that was stopped stops the list. -/
theorem not_gather_ok {stop : Stop} (h : Keyed.get? p.finished i = some (.error stop))
    (hi : i < records.length) : ¬ ∃ ms, (p.gather work 0 records).1 = .ok ms := by
  rintro ⟨ms, hms⟩
  rw [gather_result] at hms
  have hmem : i ∈ List.range' 0 records.length := by simp [hi]
  obtain ⟨m, -, hm⟩ := Traverse.exists_of_mem_of_mapM_eq_ok hms hmem
  rw [resultAt, get?_finished_gather_error h] at hm
  cases hm

theorem foldl_gather_ok_iff {taken : List Nat} (htaken : p.Taken taken) (hfine : p.FineFrom 0) :
    (∃ ms, ((order.foldl (takeAt work records) p).gather work 0 records).1 = .ok ms) ↔
      Goes work (turns records taken order) p.store := by
  induction order generalizing p taken with
  | nil => exact gather_ok_iff htaken hfine
  | cons i order ih =>
    rw [List.foldl_cons, turns]
    cases hi : records[i]? with
    | none =>
      have hat : p.takeAt work records i = p := by rw [takeAt, hi]
      rw [hat, ih htaken hfine]
      split <;> rfl
    | some record =>
      rw [takeAt_of_getElem? hi]
      cases hfinished : Keyed.get? p.finished i with
      | some result =>
        rw [if_pos ((htaken i).mpr ⟨_, hfinished⟩), take_of_finished hfinished]
        exact ih htaken hfine
      | none =>
        have hnot : i ∉ taken := fun hmem => by
          obtain ⟨result, hresult⟩ := (htaken i).mp hmem
          cases hfinished.symm.trans hresult
        have htake : p.take work i record = _ := take_of_unfinished hfinished record
        rw [if_neg hnot, goes_cons_iff]
        cases hresult : (work record p.store).result with
        | ok m =>
          have hm : (p.take work i record).1 = .ok m := by rw [htake, hresult]
          have hstore : (p.take work i record).2.store = (work record p.store).store := by
            rw [htake]
          rw [ih (taken_take htaken i record) (fineFrom_take hfine hm), hstore]
          simp
        | error stop =>
          have hstopped : Keyed.get? (p.take work i record).2.finished i = some (.error stop) := by
            rw [get?_finished_take, htake, hresult]
          have hlt : i < records.length := (List.getElem?_eq_some_iff.mp hi).1
          have hno : ¬ ∃ ms, ((order.foldl (takeAt work records)
              (p.take work i record).2).gather work 0 records).1 = .ok ms :=
            not_gather_ok (resultAt_foldl_takeAt hstopped) hlt
          exact ⟨fun h => (hno h).elim, fun h => by simp at h⟩

end Batch

section

variable {work : Cell → Store → Outcome Mapped} {records : List Cell} {order : List Nat} {s : Store}

/-- What every record that is mapped preserves holds of the batch that the list comes to, and tells
the result. A position is finished there if none before it was stopped. -/
theorem mapRecords_induct {I : Batch → Prop} (hstart : I { store := s })
    (hstep : ∀ (p : Batch) (i : Nat) (record : Cell), records[i]? = some record →
      Keyed.get? p.finished i = none → I p → I (p.take work i record).2) :
    ∃ q : Batch, I q ∧
      mapRecords work order records s =
        { result := (List.range records.length).mapM q.resultAt
          store := q.store, journal := q.journal } ∧
      ∀ i < records.length, (∀ j < i, ∃ m, q.resultAt j = .ok m) →
        ∃ result, Keyed.get? q.finished i = some result := by
  let taken := order.foldl (Batch.takeAt work records) { store := s }
  refine ⟨(taken.gather work 0 records).2, ?_, ?_, fun i hi hbefore => ?_⟩
  · have htaken : I taken := Batch.foldl_takeAt_induct hstep hstart order
    exact Batch.gather_induct hstep htaken fun j record hj => by rwa [Nat.zero_add]
  · rw [mapRecords, List.range_eq_range', ← Batch.gather_result]
  · have hfinished := @Batch.exists_finished_gather work taken 0 records i hi fun j hj => by
      rw [Nat.zero_add]
      exact hbefore j hj
    rwa [Nat.zero_add] at hfinished

/-- A list is mapped exactly if each record is when its turn comes. -/
theorem mapRecords_ok_iff :
    (∃ ms, (mapRecords work order records s).result = .ok ms) ↔
      Batch.Goes work (Batch.turns records [] order) s :=
  Batch.foldl_gather_ok_iff (p := { store := s }) (fun i => by simp [Keyed.get?])
    fun i _ result h => by cases h

end

end Reshape

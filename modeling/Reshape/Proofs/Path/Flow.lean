import Reshape.Proofs.Path.Compose

/-!
# Array flow

Behind its first wildcard a path is applied to everything that has been collected, one segment
after the other (`readAll_eq_flow`). What one item comes to does not depend on the items beside it:
a collection is the items' own flows, one behind the other (`flow_eq_flatMap`). So a path with a
wildcard leads to the flows of what the wildcard finds (`read_wildcard`).
-/

namespace Reshape

/-- What a value holds under a key, where the key can be looked up. -/
def Value.held? (v : Value) (key : Text) : Option Value :=
  match v.under key with
  | .ok found => found
  | .error _ => none

/-- What an item comes to along one segment. A field or an index leads to one value, which is `null`
where there is none. A wildcard leads to the elements of a list, but not to those of the lists in
it, or to any other value itself. Nothing comes of `null`. -/
def Segment.flow (s : Segment) (item : Value) : List Value :=
  if item = .null then [] else
    match s.access, item.held? s.key with
    | .plain, some v => [v]
    | .plain, none => [.null]
    | .index n, some (.list xs) => [xs[n]?.getD .null]
    | .index _, _ => [.null]
    | .wildcard, some (.list xs) => xs
    | .wildcard, some .null => []
    | .wildcard, some v => [v]
    | .wildcard, none => []

namespace Path

/-- What items come to along a path, segment by segment. -/
def flow (items : List Value) (q : Path) : List Value :=
  q.foldl (fun items s => items.flatMap s.flow) items

/-- The flows of the items that a wildcard finds under a key, one behind the other. -/
def flowUnder (v : Value) (key : Text) (q : Path) : List Value :=
  (Segment.flow { key, access := .wildcard } v).flatMap fun item => flow [item] q

variable {p q : Path} {items : List Value}

@[simp] theorem flow_nil (items : List Value) : flow items [] = items := rfl

theorem flow_cons (items : List Value) (s : Segment) (q : Path) :
    flow items (s :: q) = flow (items.flatMap s.flow) q := rfl

theorem flow_concat (items : List Value) (q : Path) (s : Segment) :
    flow items (q ++ [s]) = (flow items q).flatMap s.flow := by
  rw [flow, List.foldl_append]
  rfl

/-- Every item flows for itself. -/
theorem flow_eq_flatMap (items : List Value) (q : Path) :
    flow items q = items.flatMap fun item => flow [item] q := by
  induction q generalizing items with
  | nil => simp
  | cons s q ih =>
    have hitem : ∀ item, flow [item] (s :: q) = (s.flow item).flatMap fun i => flow [i] q := by
      intro item
      rw [flow_cons, List.flatMap_singleton, ih]
    rw [flow_cons, ih, List.flatMap_assoc]
    simp only [hitem]

/-! ### The reader's collections -/

theorem spread_eq_flow {s : Segment} {item : Value} {collected : List Value}
    (h : s.spread item = .ok collected) : collected = s.flow item := by
  unfold Segment.spread at h
  split at h
  · cases h
    rfl
  · next hitem =>
    obtain ⟨found, hu, hc⟩ := Traverse.bind_eq_ok_iff.mp h
    have hheld : item.held? s.key = found := by
      rw [Value.held?, hu]
    rw [Segment.flow, if_neg hitem, hheld]
    cases ha : s.access <;> rw [ha] at hc <;> cases hc
    case plain => cases found <;> rfl
    all_goals
      rcases found with _ | v
      · rfl
      · cases v <;> rfl

/-- A collection that is not stopped is the flow of its items. -/
theorem readAll_eq_flow {found : List Value} (h : readAll items q = .ok found) :
    found = flow items q := by
  induction q generalizing items with
  | nil =>
    cases h
    rfl
  | cons s q ih =>
    obtain ⟨parts, hparts, hrest⟩ := Traverse.bind_eq_ok_iff.mp h
    have hstep : parts.flatten = items.flatMap s.flow := by
      rw [((Traverse.mapM_eq_ok_iff_map fun _ _ => spread_eq_flow).mp hparts).2, List.flatMap_def]
    rw [flow_cons, ← hstep]
    exact ih hrest

/-- What a wildcard finds under the key of a value is what the value comes to along it. -/
theorem fanOut_eq_flow {v : Value} {key : Text} {found : Option Value} (hv : v ≠ .null)
    (h : v.under key = .ok found) :
    fanOut found = Segment.flow { key, access := .wildcard } v := by
  refine spread_eq_flow (s := { key, access := .wildcard }) ?_
  cases v with
  | null => exact absurd rfl hv
  | _ => exact Traverse.bind_eq_ok_iff.mpr ⟨found, h, rfl⟩

/-! ### Fields and indexes -/

theorem length_flow_item {s : Segment} (hs : s.isWildcard = false) (item : Value) :
    (s.flow item).length = if item = .null then 0 else 1 := by
  unfold Segment.flow
  split
  · rfl
  · split <;> simp_all [Segment.isWildcard]

/-- Along a field or an index there is one value for each item that is not `null`. -/
theorem length_flatMap_flow {s : Segment} (hs : s.isWildcard = false) (items : List Value) :
    (items.flatMap s.flow).length = items.countP (· ≠ .null) := by
  induction items with
  | nil => rfl
  | cons item items ih =>
    rw [List.flatMap_cons, List.length_append, List.countP_cons, ih, length_flow_item hs]
    by_cases h : item = .null <;> simp [h, Nat.add_comm]

theorem length_flowUnder_concat {v : Value} {key : Text} {s : Segment}
    (hs : s.isWildcard = false) :
    (flowUnder v key (q ++ [s])).length = (flowUnder v key q).countP (· ≠ .null) := by
  rw [flowUnder, flowUnder, ← flow_eq_flatMap, ← flow_eq_flatMap, flow_concat,
    length_flatMap_flow hs]

/-! ### One path -/

/-- A path with a wildcard leads from a value to the flows of what the wildcard finds, and nowhere
if there is no value to find it in. A field or an index at its end gives one value for each that is
not `null`. -/
theorem read_wildcard (root : Value) (key : Text) (hp : p.hasWildcard = false)
    (h : ¬ Blocked root (p ++ { key, access := .wildcard } :: q)) :
    ∃ found, read root p = .ok found ∧
      (found = none ∨ found = some .null →
        read root (p ++ { key, access := .wildcard } :: q) = .ok none) ∧
      ∀ v, found = some v → v ≠ .null →
        read root (p ++ { key, access := .wildcard } :: q) =
            .ok (some (.list (flowUnder v key q))) ∧
          ∀ q' s, q = q' ++ [s] → s.isWildcard = false →
            (flowUnder v key q).length = (flowUnder v key q').countP (· ≠ .null) := by
  obtain ⟨last, hlast⟩ := exists_read_ok_iff.mpr h
  have hcut := hlast
  rw [read, readFrom_append hp] at hcut
  obtain ⟨found, hfound, hrest⟩ := Traverse.bind_eq_ok_iff.mp hcut
  refine ⟨found, hfound, ?_, ?_⟩
  · rintro (rfl | rfl) <;> rw [hlast, ← hrest]
    · exact readFrom_none _
    · exact readFrom_null (List.cons_ne_nil _ _)
  · rintro v rfl hv
    refine ⟨?_, ?_⟩
    · rw [readFrom_cons hv] at hrest
      obtain ⟨under, hunder, hrest⟩ := Traverse.bind_eq_ok_iff.mp hrest
      obtain ⟨all, hall, hitems⟩ := Traverse.bind_eq_ok_iff.mp hrest
      rw [hlast, ← hitems, readAll_eq_flow hall, flow_eq_flatMap, fanOut_eq_flow hv hunder]
      rfl
    · rintro q' s rfl hs
      exact length_flowUnder_concat hs

/-- Numbers, lists and `null` side by side under two wildcards. -/
theorem read_wildcard_mixed :
    let root := Value.obj [("x", .list [.obj [("a", .list [.obj [("b", .list [.int 1, .null,
      .list [.int 2]])], .null, .obj [("b", .int 3)], .obj [], .int 4])]])]
    let p : Path := [⟨"x", .index 0⟩]
    let q : Path := [⟨"b", .wildcard⟩, ⟨"0", .plain⟩]
    p.hasWildcard = false ∧ ¬ Blocked root (p ++ ⟨"a", .wildcard⟩ :: q) ∧
      read root (p ++ ⟨"a", .wildcard⟩ :: q) = .ok (some (.list [.null, .int 2, .null])) := by
  intro root p q
  have hp : p.hasWildcard = false := rfl
  have h : ¬ Blocked root (p ++ ⟨"a", .wildcard⟩ :: q) := exists_read_ok_iff.mp ⟨_, rfl⟩
  obtain ⟨found, hfound, -, hread⟩ := read_wildcard root "a" hp h
  cases hfound
  exact ⟨hp, h, (hread _ rfl Value.noConfusion).1⟩

end Path

end Reshape

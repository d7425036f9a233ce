import Reshape.Proofs.Mapping.Told
import Reshape.Proofs.Path.Fields
import Reshape.Proofs.Path.Leaves

/-!
# The identity mapping

A mapping that takes every leaf of an object from its own place gives the object back, in the same
order and without a warning, if its keys can stand in paths and no leaf nests too deep to be copied
(`mapRecord_identityMapping`). No leaf is inside of another, so a run comes to what is told of the
leaves (`tells_leaf`).
-/

namespace Reshape

/-- The text of the path of keys alone. -/
def Path.joined (keys : List Text) : Text :=
  [.char '.'].intercalate keys

/-- The text of the path to a leaf. -/
def Leaf.path (leaf : Leaf) : Text :=
  Path.joined leaf.1

/-- Every leaf, in the order of the keys, from its own path. -/
def identityMapping (r : Members) : Members :=
  (memberLeaves r).map fun leaf => (leaf.path, .str leaf.path)

/-- The key is a piece of a path that is read and written as it stands. -/
def IsPathKey (key : Text) : Prop :=
  .char '.' ∉ key ∧ Segment.IsField key

instance (key : Text) : Decidable (IsPathKey key) :=
  inferInstanceAs (Decidable (_ ∧ _))

theorem Path.pieces_joined {keys : List Text} (hne : keys ≠ [])
    (hk : ∀ key ∈ keys, IsPathKey key) : pieces (joined keys) = keys :=
  List.splitOn_intercalate _ (fun key hkey => (hk key hkey).1) hne

theorem Source.ofText_path {text : Text} (hne : text ≠ []) (hq : text.head? ≠ some (.char '=')) :
    Source.ofText text = .path text := by
  unfold Source.ofText
  split
  · exact (hne rfl).elim
  · exact (hq rfl).elim
  · rfl

/-- The leaves of an object can be read and written by their paths. -/
structure Addressable (r : Members) : Prop where
  distinct : membersDistinct r = true
  keys : ∀ key ∈ memberKeys r, IsPathKey key
  sources : ∀ leaf ∈ memberLeaves r, leaf.path ≠ [] ∧ leaf.path.head? ≠ some (.char '=')

section

variable {registry : Registry} {r : Members} {leaf : Leaf}

theorem Addressable.pathKeys (h : Addressable r) (hl : leaf ∈ memberLeaves r) :
    ∀ key ∈ leaf.1, IsPathKey key :=
  fun key hkey => h.keys key (mem_memberKeys_of_mem_memberLeaves hl hkey)

theorem Addressable.pieces_path (h : Addressable r) (hl : leaf ∈ memberLeaves r) :
    Path.pieces leaf.path = leaf.1 :=
  Path.pieces_joined (ne_nil_of_mem_memberLeaves hl) (h.pathKeys hl)

theorem Addressable.isField (h : Addressable r) (hl : leaf ∈ memberLeaves r) :
    ∀ piece ∈ Path.pieces leaf.path, Segment.IsField piece := by
  rw [h.pieces_path hl]
  exact fun key hkey => (h.pathKeys hl key hkey).2

theorem Addressable.target (h : Addressable r) (hl : leaf ∈ memberLeaves r) :
    Target.ofText leaf.path = leaf.1.map .field := by
  rw [Target.ofText_fields fun piece hp => (h.isField hl piece hp).1, h.pieces_path hl]

theorem Addressable.readText (h : Addressable r) (hl : leaf ∈ memberLeaves r) :
    Path.readText (.obj r) leaf.path = .ok (some leaf.2) := by
  refine Path.readText_fields (h.sources leaf hl).1 (h.isField hl) ?_
  rw [h.pieces_path hl]
  exact along_memberLeaves h.distinct hl

/-- No leaf is written inside of another, or in its place. -/
theorem pairwise_independent (h : Addressable r) :
    (identityMapping r).Pairwise fun a b => Path.Independent a.1 b.1 := by
  refine List.pairwise_map.mpr ?_
  refine (pairwise_apart_memberLeaves h.distinct).imp_of_mem fun hl ho happart => ?_
  rw [Path.independent_iff_apart, h.target hl, h.target ho]
  exact happart

/-- The identity mapping is a mapping: no path stands in it twice. -/
theorem nodup_keys_identityMapping (h : Addressable r) :
    (Keyed.keys (identityMapping r)).Nodup :=
  List.pairwise_map.mpr ((pairwise_independent h).imp Path.Independent.ne)

end

/-! ### What is told of the leaves -/

/-- What is read from the place that a member is written to. -/
def tellSame (r : Members) (member : Text × Value) : Told where
  value := match Path.readText (.obj r) member.1 with
    | .ok v => v
    | .error _ => none

section

variable {room : Nat} {registry : Registry} {r : Members} {leaf : Leaf} {s : Store} {t : Tree}

theorem evaluateMember_leaf (h : Addressable r) (hl : leaf ∈ memberLeaves r) (record : Cell) :
    evaluateMember room registry record (leaf.path, .str leaf.path) = do
      return { target := leaf.path, value := ← (Source.path leaf.path).produce room record } := by
  obtain ⟨hne, hq⟩ := h.sources leaf hl
  rw [evaluateMember, Entry.ofValue, Source.ofValue, Source.ofText_path hne hq, Entry.evaluate]
  simp

/-- A leaf is copied from its own path, if it is not too deep. -/
theorem tells_leaf (room : Nat) (registry : Registry) (h : Addressable r)
    (hl : leaf ∈ memberLeaves r) (ht : t.Standing s) (hfull : t.Full) (hnodup : t.places.Nodup)
    (hvalue : t.value = .obj r) :
    (leaf.2.TooDeepFor room → ∃ s', (evaluateMember room registry t.cell
      (leaf.path, .str leaf.path)).within s = (.error .tooDeep, s')) ∧
    (¬ leaf.2.TooDeepFor room →
      Tells room registry t.cell s (leaf.path, .str leaf.path) { value := some leaf.2 }) := by
  have hread := exists_tree_read ht hfull leaf.path
  rw [hvalue, h.readText hl] at hread
  obtain ⟨u, s', hu, -, hstand, hufull, hleaf, hunodup, -⟩ := hread
  obtain ⟨hdeep, hcopied⟩ := copy_within_tree hstand hufull (hunodup hnodup) room
  rw [hleaf] at hdeep hcopied
  have hproduce : ((Source.path leaf.path).produce room t.cell).within s =
      match (Run.copy room u.cell).within s' with
      | (.ok d, s'') => (.ok (some d), s'')
      | (.error stop, s'') => (.error stop, s'') := by
    rw [Source.produce, Run.within_bind, hu]
    dsimp only
    rw [Run.within_bind]
    rcases (Run.copy room u.cell).within s' with ⟨_ | _, _⟩ <;> rfl
  rw [Tells, evaluateMember_leaf h hl, Run.within_bind, hproduce]
  refine ⟨fun htoo => ?_, fun hnot => ?_⟩
  · obtain ⟨s'', herror⟩ := hdeep htoo
    rw [herror]
    exact ⟨s'', rfl⟩
  · obtain ⟨d, s'', hcopy⟩ := hcopied hnot
    obtain ⟨w, hw, hwfull, rfl, hwvalue, -⟩ := exists_tree_copy hstand hufull hcopy
    rw [hcopy]
    exact ⟨_, s'', rfl, .some ⟨w, hw, hwfull, rfl, hwvalue.trans hleaf⟩, rfl⟩

/-- Only its paths make a mapping of leaves come to anything. -/
theorem run_leaves (h : Addressable r) (p : Progress) (record : Cell) {leaves : List Leaf}
    (hl : ∀ leaf ∈ leaves, leaf ∈ memberLeaves r) :
    p.run room registry record (leaves.map fun leaf => (leaf.path, .str leaf.path)) =
      p.run room .empty record (leaves.map fun leaf => (leaf.path, .str leaf.path)) := by
  induction leaves generalizing p with
  | nil => rfl
  | cons leaf leaves ih =>
    rw [List.forall_mem_cons] at hl
    have hsame : evaluateMember room registry record (leaf.path, .str leaf.path) =
        evaluateMember room .empty record (leaf.path, .str leaf.path) := by
      rw [evaluateMember_leaf h hl.1, evaluateMember_leaf h hl.1]
    rw [List.map_cons, Progress.run, Progress.run, hsame]
    split
    · rfl
    · exact ih _ hl.2

theorem written_leaves (h : Addressable r) {leaves : List Leaf}
    (hl : ∀ leaf ∈ leaves, leaf ∈ memberLeaves r) (ms : Members) :
    written (tellSame r) ms (leaves.map fun leaf => (leaf.path, .str leaf.path)) =
      regrow ms leaves := by
  induction leaves generalizing ms with
  | nil => rfl
  | cons leaf leaves ih =>
    rw [List.forall_mem_cons] at hl
    have hplace : writeOptional ms leaf.path (tellSame r (leaf.path, .str leaf.path)).value =
        write ms (leaf.1.map .field) leaf.2 := by
      rw [tellSame, h.readText hl.1, writeOptional, writeText, h.target hl.1]
    rw [List.map_cons, written, List.foldl_cons, hplace]
    exact ih hl.2 _

end

/-- The identity mapping gives an object back, with its keys in the same order at every depth and
without a warning, exactly if no leaf is too deep to be copied. -/
theorem mapRecord_identityMapping (room : Nat) (registry : Registry) {r : Members}
    (h : Addressable r) {s : Store} (hs : s.Closed) :
    let x := load (.obj r) s
    let o := mapRecord room registry (identityMapping r) x.1 x.2
    (Keyed.keys (identityMapping r)).Nodup ∧
      ((∀ leaf ∈ memberLeaves r, ¬ leaf.2.TooDeepFor room) → ∃ mapped, o.result = .ok mapped ∧
        o.store.Shows mapped.output (.obj r) ∧ mapped.warnings = []) ∧
      ((∃ leaf ∈ memberLeaves r, leaf.2.TooDeepFor room) → o.result = .error .tooDeep) := by
  intro x
  obtain ⟨t, ht, hfull, hcell, hvalue, hgains⟩ := exists_tree_load (.obj r) s
  obtain ⟨hclosed, hhas⟩ := closed_load (.obj r) hs
  have hpure : Registry.empty.Pure x.2.size := Registry.pure_empty
  have htells : ∀ leaf ∈ memberLeaves r, _ := fun leaf hl =>
    tells_leaf room .empty h hl ht hfull hgains.nodup hvalue
  rw [hcell] at htells
  have hkept := Progress.kept_start x.2
  have hrun : (Progress.ofStore x.2).run room registry x.1 (identityMapping r) =
      (Progress.ofStore x.2).run room .empty x.1 (identityMapping r) :=
    run_leaves h _ _ fun _ hl => hl
  refine ⟨nodup_keys_identityMapping h, fun hroom => ?_, fun hdeep => ?_⟩
  · have hall : ∀ member ∈ identityMapping r,
        Tells room .empty x.1 x.2 member (tellSame r member) := by
      refine List.forall_mem_map.mpr fun leaf hl => ?_
      rw [tellSame, h.readText hl]
      exact (htells leaf hl).2 (hroom leaf hl)
    obtain ⟨p, ts, hp, hkept', hvalues, hwarnings⟩ := hkept.run hclosed hhas hpure hall
      (fun _ _ _ => Branches.clear_nil _) ((pairwise_independent h).imp fun hind _ _ => hind)
    rw [mapRecord_of_run (hrun.trans hp)]
    refine ⟨_, rfl, ?_, hwarnings.trans ?_⟩
    · have hshows := hkept'.shows
      rw [hvalues, identityMapping, written_leaves h fun _ hl => hl] at hshows
      rw [Branches.values, List.map_nil, regrow_memberLeaves h.distinct fun _ _ => List.not_mem_nil,
        List.nil_append] at hshows
      exact hshows
    · exact List.filterMap_eq_nil_iff.mpr fun _ _ => rfl
  · have hstops := hkept.run_stops room hclosed ht hfull hpure (Registry.valued_empty x.2)
      (fun member _ => Branches.clear_nil (Target.ofText member.1)) (pairwise_independent h)
    rw [hcell] at hstops
    cases hr : (Progress.ofStore x.2).run room .empty x.1 (identityMapping r) with
    | mk stopped p =>
      rw [hr] at hstops
      cases stopped with
      | none =>
        obtain ⟨leaf, hl, htoo⟩ := hdeep
        obtain ⟨e, u, he⟩ := hstops _ (List.mem_map.mpr ⟨leaf, hl, rfl⟩)
        obtain ⟨u', he'⟩ := (htells leaf hl).1 htoo
        cases he.symm.trans he'
      | some stop =>
        rw [mapRecord_of_stop (hrun.trans hr)]
        obtain ⟨member, hm, u, hstop⟩ := hstops
        obtain ⟨leaf, hl, rfl⟩ := List.mem_map.mp hm
        by_cases htoo : leaf.2.TooDeepFor room
        · obtain ⟨u', he'⟩ := (htells leaf hl).1 htoo
          cases hstop.symm.trans he'
          rfl
        · obtain ⟨e, u', he', -⟩ := (htells leaf hl).2 htoo
          cases hstop.symm.trans he'

/-- An empty key, `null` and an empty object as leaves, brackets that are no index, and keys in a
list that no path can name. -/
theorem mapRecord_identityMapping_brackets :
    let r : Members := [("a", .obj [("", .null), ("[0]", .obj [])]), ("b[", .int 1),
      ("c", .obj [("a[x]", .obj [("a", .list [.obj [("x.y", .null), ("a[0]", .null)]])])]),
      ("[]a", .str "=a")]
    let x := load (.obj r) {}
    let o := mapRecord 100 .empty (identityMapping r) x.1 x.2
    Addressable r ∧ ∃ mapped, o.result = .ok mapped ∧ o.store.Shows mapped.output (.obj r) ∧
      mapped.warnings = [] := by
  intro r
  have h : Addressable r := ⟨by decide, by decide, by decide⟩
  obtain ⟨-, hgives, -⟩ := mapRecord_identityMapping 100 .empty h Store.closed_empty
  exact ⟨h, hgives (by decide)⟩

/-- So many lists, one in the other. -/
def Value.nested : Nat → Value
  | 0 => .list []
  | n + 1 => .list [nested n]

theorem Value.roomToCopy_nested (n : Nat) : (nested n).roomToCopy = 2 * n + 3 := by
  induction n with
  | zero => rfl
  | succ n ih =>
    rw [nested, roomToCopy, roomForElements, roomForElements, ih]
    omega

/-- A list that nests six hundred deep is not copied where a thousand calls fit. -/
theorem mapRecord_identityMapping_deep :
    let r : Members := [("a", .nested 600)]
    let x := load (.obj r) {}
    Addressable r ∧ identityMapping r = [(("a" : Text), .str "a")] ∧
      (mapRecord 1000 .empty (identityMapping r) x.1 x.2).result = .error .tooDeep := by
  intro r
  have hleaves : memberLeaves r = [([("a" : Text)], .nested 600)] := rfl
  have h : Addressable r := by
    refine ⟨rfl, by decide, ?_⟩
    rw [hleaves]
    decide
  obtain ⟨-, -, hstops⟩ := mapRecord_identityMapping 1000 .empty h Store.closed_empty
  refine ⟨h, rfl, hstops ⟨_, by rw [hleaves]; exact List.mem_cons_self, .inl ⟨_, rfl⟩, ?_⟩⟩
  rw [Value.roomToCopy_nested]
  omega

end Reshape

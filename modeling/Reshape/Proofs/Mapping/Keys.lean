import Reshape.Proofs.Keyed
import Reshape.Proofs.Mapping.Run
import Reshape.Proofs.Path.Write
import Reshape.Proofs.Traverse

/-!
# The keys of an output

A write makes a key of the output of the first piece of its target, unless there is one already, and
no write takes a key away or moves it (`Canvas.keys_writeText`). What is shared does not matter
here, for nothing but the output leads to its own members. So the keys of an output are those that
the entries with a value write to, each at the place of the first of them (`keys_mapRecord`).
-/

namespace Reshape

/-- The key that a target begins with: what stands before the first dot, without one final `[]`. -/
def Path.firstKey (text : Text) : Text :=
  let piece := text.takeWhile (· != .char '.')
  if Segment.Marked piece then piece.take (piece.length - 2) else piece

/-- The key that an entry writes to, if it came to a value. -/
def Evaluation.key? (e : Evaluation) : Option Text :=
  e.value.map fun _ => Path.firstKey e.target

/-! ### Targets -/

theorem Path.head?_pieces (text : Text) :
    (pieces text).head? = some (text.takeWhile (· != .char '.')) := by
  induction text with
  | nil => rfl
  | cons c rest ih =>
    rw [pieces, List.splitOn_cons_eq_if_modifyHead]
    by_cases hc : c = .char '.'
    · simp [hc]
    · rw [pieces] at ih
      simp [hc, List.head?_modifyHead, ih]

theorem Slot.key_ofText (piece : Text) :
    (Slot.ofText piece).key =
      if Segment.Marked piece then piece.take (piece.length - 2) else piece := by
  by_cases hm : Segment.Marked piece
  · rw [if_pos hm, Slot.ofText, if_pos (List.isSuffixOf_iff_suffix.mpr hm), Slot.key]
  · rw [if_neg hm, Slot.ofText_field hm, Slot.key]

theorem Target.exists_ofText_eq_cons (text : Text) :
    ∃ s rest, Target.ofText text = s :: rest ∧ s.key = Path.firstKey text := by
  obtain ⟨rest, hpieces⟩ := List.head?_eq_some_iff.mp (Path.head?_pieces text)
  refine ⟨_, rest.map Slot.ofText, ?_, Slot.key_ofText _⟩
  rw [Target.ofText, hpieces, List.map_cons]

/-! ### Keys -/

namespace Canvas

theorem members_listUnder_node (c : Canvas) (a : Nat) (k : Text) :
    (c.listUnder (.node a) k).2.members = c.members := by
  unfold listUnder
  split
  · split <;> rfl
  · rfl

theorem members_objectUnder_node (c : Canvas) (a : Nat) (k : Text) :
    (c.objectUnder (.node a) k).2.members = c.members := by
  unfold objectUnder
  split
  · split <;> rfl
  · rfl

theorem members_firstObject (c : Canvas) (a : Nat) : (c.firstObject a).2.members = c.members := by
  unfold firstObject
  dsimp only
  split
  · split <;> rfl
  · rfl

/-- What is written into a node leaves the members of the output alone. -/
theorem members_write_node (c : Canvas) (a : Nat) (target : Target) (x : Cell) :
    (c.write (.node a) target x).members = c.members := by
  induction target generalizing c a with
  | nil => rfl
  | cons slot rest ih =>
    cases slot with
    | field k =>
      cases rest with
      | nil => rfl
      | cons s rest =>
        rw [write]
        · exact (ih _ _).trans (members_objectUnder_node c a k)
        · nofun
    | array k =>
      have hlist := members_listUnder_node c a k
      cases rest with
      | nil =>
        rw [write]
        dsimp only
        split <;> exact hlist
      | cons s rest =>
        rw [write]
        · exact ((ih _ _).trans (members_firstObject _ _)).trans hlist
        · nofun

/-- The keys with one more, which may be there. -/
def withKey {κ : Type} [BEq κ] [LawfulBEq κ] (keys : List κ) (k : κ) : List κ :=
  if k ∈ keys then keys else keys ++ [k]

theorem withKey_withKey (keys : List Text) (k : Text) :
    withKey (withKey keys k) k = withKey keys k := by
  have hmem : k ∈ withKey keys k := by
    unfold withKey
    split <;> simp [*]
  exact if_pos hmem

theorem withKey_of_get? {ms : Keyed Text Cell} {k : Text} {x : Cell}
    (h : Keyed.get? ms k = some x) :
    withKey (Keyed.keys ms) k = Keyed.keys ms :=
  if_pos ((Keyed.mem_keys_iff _ _).mpr (by rw [h]; rfl))

theorem keys_put (c : Canvas) (k : Text) (x : Cell) :
    Keyed.keys (c.put .output k x).members = withKey (Keyed.keys c.members) k := by
  have hkeys : Keyed.keys (c.put .output k x).members = _ := Keyed.keys_put c.members k x
  rw [hkeys, withKey]
  by_cases h : k ∈ Keyed.keys c.members
  · rw [if_pos h, if_pos h]
  · rw [if_neg h, if_neg h]

theorem keys_listUnder (c : Canvas) (k : Text) :
    Keyed.keys (c.listUnder .output k).2.members = withKey (Keyed.keys c.members) k := by
  unfold listUnder
  split
  · next h =>
    split
    · exact (withKey_of_get? h).symm
    · exact keys_put _ k _
  · exact keys_put _ k _

theorem keys_objectUnder (c : Canvas) (k : Text) :
    Keyed.keys (c.objectUnder .output k).2.members = withKey (Keyed.keys c.members) k := by
  unfold objectUnder
  split
  · next h =>
    split
    · exact (withKey_of_get? h).symm
    · exact keys_put _ k _
  · exact keys_put _ k _

/-- After a write the first key of its target is there. -/
theorem keys_write (c : Canvas) (s : Slot) (rest : Target) (x : Cell) :
    Keyed.keys (c.write .output (s :: rest) x).members = withKey (Keyed.keys c.members) s.key := by
  cases s with
  | field k =>
    cases rest with
    | nil => exact keys_put c k x
    | cons s rest =>
      rw [write, members_write_node]
      · exact keys_objectUnder c k
      · nofun
  | array k =>
    have hlist := keys_listUnder c k
    cases rest with
    | nil =>
      rw [write]
      dsimp only
      split
      · refine (keys_put _ k _).trans ?_
        rw [hlist]
        exact withKey_withKey _ k
      · exact hlist
    | cons s rest =>
      rw [write, members_write_node]
      · rw [members_firstObject]
        exact hlist
      · nofun

theorem keys_writeText (c : Canvas) (text : Text) (x : Cell) :
    Keyed.keys (c.writeText text x).members =
      withKey (Keyed.keys c.members) (Path.firstKey text) := by
  obtain ⟨s, rest, htarget, hkey⟩ := Target.exists_ofText_eq_cons text
  rw [writeText, htarget, keys_write, hkey]

end Canvas

namespace Progress

/-- The keys of the output are those that entries with a value have written to. -/
def TellsKeys (p : Progress) : Prop :=
  Keyed.keys p.canvas.members = (p.evaluations.filterMap Evaluation.key?).eraseDups

variable {room : Nat} {registry : Registry} {record : Cell} {p q : Progress} {mapping : Members}

/-- An entry with a value is seen by its key, and any other leaves the keys alone. -/
theorem TellsKeys.add (h : p.TellsKeys) (s : Store) (e : Evaluation) : (p.add s e).TellsKeys := by
  unfold TellsKeys at *
  rw [Progress.add]
  dsimp only
  rw [List.filterMap_append]
  obtain ⟨target, value, warning⟩ := e
  cases value with
  | none =>
    have hnone : [Evaluation.mk target none warning].filterMap Evaluation.key? = [] := rfl
    rw [hnone, List.append_nil]
    exact h
  | some x =>
    have hsome : [Evaluation.mk target (some x) warning].filterMap Evaluation.key? =
        [Path.firstKey target] := rfl
    rw [hsome, eraseDups_concat, ← h]
    exact Canvas.keys_writeText _ target x

theorem TellsKeys.run (h : p.TellsKeys) (hrun : p.run room registry record mapping = (none, q)) :
    q.TellsKeys := by
  induction mapping generalizing p with
  | nil =>
    cases hrun
    exact h
  | cons member rest ih =>
    obtain ⟨e, s, -, hrest⟩ := run_cons_iff.mp hrun
    exact ih (h.add s e) hrest

end Progress

/-- The keys of an output are those that entries with a value write to, each once, in the order in
which the mapping first comes to them. -/
theorem keys_mapRecord {room : Nat} {registry : Registry} {mapping : Members} {record : Cell}
    {s : Store} {mapped : Mapped}
    (hrun : (mapRecord room registry mapping record s).result = .ok mapped) :
    ∃ p ms, (Progress.ofStore s).run room registry record mapping = (none, p) ∧
      p.evaluations.map (·.target) = mapping.map Prod.fst ∧
      (mapRecord room registry mapping record s).store.members? mapped.output = some ms ∧
      Keyed.keys ms = (p.evaluations.filterMap Evaluation.key?).eraseDups := by
  obtain ⟨p, hp, rfl⟩ := mapRecord_ok_iff.mp hrun
  obtain ⟨es, hes, htargets⟩ := Progress.evaluations_run hp
  have hkeys : p.TellsKeys := Progress.TellsKeys.run (p := .ofStore s) rfl hp
  refine ⟨p, p.canvas.members, hp, ?_, ?_, hkeys⟩
  · rw [hes, ← htargets]
    rfl
  · rw [mapRecord_of_run hp]
    simp [Store.members?, get?_push_self]

/-- A key that becomes a list and an object again, the empty key of two targets, and two entries
that come to nothing. -/
theorem keys_mapRecord_overwritten :
    let mapping : Members := [("a.x", .str "p"), ("b[].y", .str "no"), ("[]", .str "=1"),
      ("a[]", .str "=2"), ("c[]", .str "p"), (".z", .str "=3"), ("d", .null), ("a[].x", .str "=4")]
    let (record, s) := load (.obj [("p", .null)]) {}
    let o := mapRecord 100 .empty mapping record s
    ∃ mapped ms, o.result = .ok mapped ∧ o.store.members? mapped.output = some ms ∧
      Keyed.keys ms = (["a", "", "c"] : List Text) := by
  intro mapping
  let r := load (.obj [("p", .null)]) {}
  have hreturns : (mapRecord 100 .empty mapping r.1 r.2).result.isOk = true := by decide +kernel
  obtain ⟨mapped, hrun⟩ := Traverse.exists_ok_of_isOk hreturns
  obtain ⟨p, ms, hp, -, hms, hkeys⟩ := keys_mapRecord hrun
  refine ⟨mapped, ms, hrun, hms, hkeys.trans ?_⟩
  have heq : p = ((Progress.ofStore r.2).run 100 .empty r.1 mapping).2 := by rw [hp]
  rw [heq]
  decide +kernel

/-- What a transform shares does not hide a key: the second entry writes into the record, where the
third finds it. -/
example :
    let registry := Registry.ofList [("same", .function fun _ args s => (.value args.head?, s))]
    let mapping : Members := [("a", .obj [("$transform", .str "same"), ("$path", .str "x")]),
      ("a.z", .str "=new"), ("c", .str "x.z")]
    let (record, s) := load (.obj [("x", .obj [("k", .int 1)])]) {}
    let o := mapRecord 100 registry mapping record s
    (o.result.toOption.bind fun mapped => o.store.members? mapped.output).map Keyed.keys =
      some (["a", "c"] : List Text) := by
  decide +kernel

end Reshape

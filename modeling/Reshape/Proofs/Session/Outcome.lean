import Reshape.Proofs.Json.Cells
import Reshape.Proofs.Mapping.Alone
import Reshape.Proofs.Mapping.Identity
import Reshape.Session

/-!
# What a run comes to

A run comes to what the records of its input come to, each alone (`Session.run_comes`). It makes no
difference in which order the workers of a pool finish, and what the session has done before. A
profile makes one difference only: it asks for the sizes of the input and of the output, and there
is none for what nests too deep. A pool makes one only by the room that its workers have.
-/

namespace Reshape

namespace Session

variable {s : Session} {mapping : Members} {input : Cell}

/-- What a record of an input comes to alone, where the session would map it. -/
def alone (s : Session) (mapping : Members) (input record : Cell) : Outcome Mapped :=
  mapRecord (recordRoom s.settings.room s.workers s.store input) s.settings.registry mapping record
    s.store

/-- If there is a profile, what a cell leads to has a size. -/
def Sizes (s : Session) (t : Store) (c : Cell) : Prop :=
  s.profile.isSome = true → ∃ n, documentSize t c = .ok n

/-- What a run comes to, told of what the records of its input come to alone. -/
inductive Comes (s : Session) (mapping : Members) (input : Cell) :
    Except StepError Report → Store → Prop
  | unsized {e : Json.DepthError} (profiled : s.profile.isSome = true)
      (deep : documentSize s.store input = .error e) :
      Comes s mapping input (.error (.depth e)) s.store
  | stopped {stop : Stop} {t : Store} (sized : s.Sizes s.store input)
      (yields : Yields (s.alone mapping input) s.store input t (.error stop)) :
      Comes s mapping input (.error (.stopped stop)) t
  | unsizedOutput {m : Mapped} {t : Store} {e : Json.DepthError} (sized : s.Sizes s.store input)
      (yields : Yields (s.alone mapping input) s.store input t (.ok m))
      (profiled : s.profile.isSome = true) (deep : documentSize t m.output = .error e) :
      Comes s mapping input (.error (.depth e)) t
  | mapped {m : Mapped} {t : Store} (sized : s.Sizes s.store input)
      (yields : Yields (s.alone mapping input) s.store input t (.ok m))
      (sizedOutput : s.Sizes t m.output) :
      Comes s mapping input (.ok (.mapped m.output (recordCount s.store input) m.warnings none)) t

/-! ### The profile -/

/-- What a run depends on is as before: all but the profile itself, the journal and the clock. -/
structure Beside (s s' : Session) : Prop where
  settings : s'.settings = s.settings
  pool : s'.pool = s.pool
  profiled : s'.profile.isSome = s.profile.isSome
  store : s'.store = s.store
  workspace : s'.workspace = s.workspace

namespace Beside

variable {s' s'' : Session}

theorem refl (s : Session) : s.Beside s :=
  ⟨rfl, rfl, rfl, rfl, rfl⟩

end Beside

theorem beside_note (s : Session) (lines : Journal) : s.Beside (s.note lines) :=
  ⟨rfl, rfl, rfl, rfl, rfl⟩

theorem beside_start (s : Session) (inputSize : Nat) : s.Beside (s.start inputSize) := by
  unfold start
  split
  · exact .refl s
  · next p hp => exact ⟨rfl, rfl, by rw [hp]; rfl, rfl, rfl⟩

theorem beside_sample (s : Session) : s.Beside s.sample :=
  ⟨rfl, rfl, Option.isSome_map, rfl, rfl⟩

theorem beside_finish (s : Session) (outputSize records : Nat) :
    s.Beside (s.finish outputSize records) := by
  unfold finish
  split
  · exact .refl s
  · next p hp =>
    split
    · exact .refl s
    · exact ⟨rfl, rfl, by rw [hp]; rfl, rfl, rfl⟩

theorem profiledSize_eq_ok {c : Cell} {n : Nat} (h : s.profiledSize c = .ok n) :
    s.Sizes s.store c := by
  intro hp
  rw [profiledSize, if_pos hp] at h
  exact ⟨n, h⟩

theorem profiledSize_eq_error {c : Cell} {e : Json.DepthError} (h : s.profiledSize c = .error e) :
    s.profile.isSome = true ∧ documentSize s.store c = .error e := by
  unfold profiledSize at h
  split at h
  · next hp => exact ⟨hp, h⟩
  · cases h

/-! ### The run -/

theorem workers_congr {s' : Session} (h : s.Beside s') : s'.workers = s.workers := by
  rw [workers, workers, h.pool, h.settings]

/-- What is mapped does not depend on what was done before. -/
theorem map_yields {t : Tree} (ht : t.Standing s.store) (hfull : t.Full) (hnodup : t.places.Nodup)
    (hpure : s.settings.registry.Pure 0) {s' : Session} (h : s.Beside s') :
    Yields (s.alone mapping t.cell) s.store t.cell (s'.map mapping t.cell).2.store
      (s'.map mapping t.cell).1 := by
  have hmap : mapInput s'.settings.room s'.workers s'.settings.registry mapping t.cell s'.store =
      mapInput s.settings.room s.workers s.settings.registry mapping t.cell s.store := by
    rw [workers_congr h, h.settings, h.store]
  rw [map, hmap]
  exact mapInput_yields ht hfull hnodup hpure s.settings.room s.workers

theorem isSome_profile_map (s : Session) (mapping : Members) (input : Cell) :
    (s.map mapping input).2.profile.isSome = s.profile.isSome :=
  rfl

/-- A run comes to what is told of its records if its input does when it is mapped. -/
theorem comes_of_yields (hyields : ∀ {s' : Session}, s.Beside s' →
      Yields (s.alone mapping input) s.store input (s'.map mapping input).2.store
        (s'.map mapping input).1) :
    s.Comes mapping input (s.run input (.obj mapping)).1 (s.run input (.obj mapping)).2.store := by
  unfold run
  dsimp only
  cases hsize : s.profiledSize input with
  | error e =>
    obtain ⟨hprofiled, hdeep⟩ := profiledSize_eq_error hsize
    exact .unsized hprofiled hdeep
  | ok inputSize =>
    have hsized := profiledSize_eq_ok hsize
    have hstart := beside_start s inputSize
    have hyields := hyields hstart
    have hprofile := (isSome_profile_map (s.start inputSize) mapping input).trans hstart.profiled
    dsimp only
    generalize (s.start inputSize).map mapping input = r at hyields hprofile ⊢
    obtain ⟨_ | mapped, s'⟩ := r
    · dsimp only
      rw [(beside_finish s' 0 0).store]
      exact .stopped hsized hyields
    · dsimp only
      have hsampled := (beside_sample s').profiled.trans hprofile
      cases hout : s'.sample.profiledSize mapped.output with
      | error e =>
        obtain ⟨hprofiled, hdeep⟩ := profiledSize_eq_error hout
        dsimp only
        rw [(beside_finish s'.sample 0 0).store]
        exact .unsizedOutput hsized hyields (hsampled ▸ hprofiled) hdeep
      | ok outputSize =>
        have hsizedOutput := profiledSize_eq_ok hout
        rw [Sizes, hsampled] at hsizedOutput
        dsimp only
        rw [(beside_note _ _).store, (beside_finish s'.sample _ _).store]
        exact .mapped hsized hyields hsizedOutput

/-- A run on an input without shared parts comes to what is told of its records, if transforms keep
nothing. -/
theorem run_comes (s : Session) (mapping : Members) {t : Tree} (ht : t.Standing s.store)
    (hfull : t.Full) (hnodup : t.places.Nodup) (hpure : s.settings.registry.Pure 0) :
    s.Comes mapping t.cell (s.run t.cell (.obj mapping)).1 (s.run t.cell (.obj mapping)).2.store :=
  comes_of_yields (map_yields ht hfull hnodup hpure)

/-- A run in a pool whose workers finish in reverse: the outputs are in the order of the records,
and a list among the records is mapped as one record. -/
theorem run_comes_batch :
    let settings : Settings :=
      { parallel := true, schedule := fun n => (List.range n).reverse, profiling := true }
    let r := Reshape.load (.list [.obj [("p", .int 1)], .list [.obj [("p", .int 2)]]]) {}
    let s : Session := { settings, pool := true, profile := some {}, store := r.2,
                         workspace := { tree := {}, home := [] } }
    let mapping : Members := [("t", .str "p")]
    ∃ t : Tree, t.cell = r.1 ∧ t.Standing s.store ∧ t.Full ∧ t.places.Nodup ∧
      s.settings.registry.Pure 0 ∧
      s.Comes mapping t.cell (s.run t.cell (.obj mapping)).1 (s.run t.cell (.obj mapping)).2.store ∧
      (s.run t.cell (.obj mapping)).1 = .ok (.mapped (.ref 6) 2 [] none) ∧
      (s.run t.cell (.obj mapping)).2.store.get? 6 = some (.list [.ref 5, .ref 4]) ∧
      (s.run t.cell (.obj mapping)).2.store.get? 5 = some (.obj [("t", .scalar (.int 1))]) := by
  intro settings r s mapping
  obtain ⟨t, ht, hfull, hcell, -, hgains⟩ :=
    exists_tree_load (.list [.obj [("p", .int 1)], .list [.obj [("p", .int 2)]]]) {}
  have hpure : s.settings.registry.Pure 0 := Registry.pure_builtin
  refine ⟨t, hcell, ht, hfull, hgains.nodup, hpure,
    run_comes s mapping ht hfull hgains.nodup hpure, ?_⟩
  rw [hcell]
  decide +kernel

/-- A run on one record that is mapped comes to its output, or asks for a size too many. -/
theorem Comes.of_record {result : Except StepError Report} {t : Store} {own : Mapped}
    (h : s.Comes mapping input result t) (hsingle : s.store.elements? input = none)
    (halone : (s.alone mapping input input).result = .ok own) :
    (s.profile.isSome = true ∧ ∃ e, result = .error (.depth e)) ∨
      ∃ m : Mapped, result = .ok (.mapped m.output 1 m.warnings none) ∧ own.warnings = m.warnings ∧
        (s.alone mapping input input).store.Same t own.output m.output ∧ s.Sizes t m.output := by
  have hsame : ∀ {r}, Yields (s.alone mapping input) s.store input t r →
      (s.alone mapping input input).Same t r := fun hyields => by
    cases hyields with
    | record _ same => exact same
    | batch several => cases hsingle.symm.trans several
    | stopped several => cases hsingle.symm.trans several
  cases h with
  | unsized profiled => exact .inl ⟨profiled, _, rfl⟩
  | unsizedOutput _ _ profiled => exact .inl ⟨profiled, _, rfl⟩
  | stopped _ yields =>
    cases hsame yields with
    | error hstop => cases halone.symm.trans hstop
  | @mapped m _ _ yields sized =>
    cases hsame yields with
    | ok hown hwarnings houtput =>
      cases halone.symm.trans hown
      have hone : recordCount s.store input = 1 := by
        rw [recordCount, hsingle]
      exact .inr ⟨m, by rw [hone], hwarnings, houtput, sized⟩

/-- A target of so many fields below the first. -/
def deepTarget (n : Nat) : Text :=
  Path.joined (List.replicate (n + 1) "a")

theorem ofText_deepTarget (n : Nat) :
    Target.ofText (deepTarget n) = List.replicate (n + 1) (.field "a") := by
  have hkey : ∀ key ∈ List.replicate (n + 1) ("a" : Text), IsPathKey key := fun key h => by
    rw [List.eq_of_mem_replicate h]
    decide
  have hpieces : Path.pieces (deepTarget n) = List.replicate (n + 1) ("a" : Text) :=
    Path.pieces_joined (List.cons_ne_nil _ _) hkey
  rw [Target.ofText_fields, hpieces, List.map_replicate]
  rw [hpieces]
  exact fun key h => (hkey key h).2.1

theorem write_fields (key : Text) (v : Value) (n : Nat) :
    write [] (List.replicate (n + 1) (.field key)) v =
      [(key, (List.replicate n ()).foldr (fun _ w => .obj [(key, w)]) v)] := by
  induction n with
  | zero => rfl
  | succ n ih =>
    rw [List.replicate_succ, List.replicate_succ, write, membersUnder, Keyed.get?,
      ← List.replicate_succ, Option.map_none, Option.getD_none, Keyed.put, ih]
    · rfl
    · simp

theorem storable_nested {key : Text} (hkey : ∀ c ∈ key, c.isHalf = false) {v : Value}
    (hv : v.Storable)
    (n : Nat) : ((List.replicate n ()).foldr (fun _ w => Value.obj [(key, w)]) v).Storable := by
  induction n with
  | zero => exact hv
  | succ n ih =>
    rw [List.replicate_succ, List.foldr_cons]
    exact .obj (List.nodup_singleton _) (by simpa using hkey) (by simpa using ih)

theorem depth_nested (key : Text) (v : Value) (n : Nat) :
    ((List.replicate n ()).foldr (fun _ w => Value.obj [(key, w)]) v).depth = v.depth + n := by
  induction n with
  | zero => rfl
  | succ n ih =>
    rw [List.replicate_succ, List.foldr_cons, Value.depth, Value.depthOfMembers,
      Value.depthOfMembers,
      ih]
    omega

/-- A record on which one literal is written. -/
theorem mapRecord_deepTarget {room : Nat} {registry : Registry} {t : Store} (ht : t.Closed)
    (hrecord : t.Has input) (hpure : registry.Pure t.size) (n : Nat) :
    let o := mapRecord room registry [(deepTarget n, .str "=x")] input t
    ∃ output, o.result = .ok { output, warnings := [] } ∧ o.store.Shows output
      ((List.replicate (n + 1) ()).foldr (fun _ w => .obj [("a", w)]) (.str "x")) := by
  let member : Text × Value := (deepTarget n, .str "=x")
  have htold : Tells room registry input t member { value := some (.str "x") } :=
    ⟨{ target := deepTarget n, value := some (.scalar (.str "x")) }, t, rfl,
      .some (t.shows_scalar (.str "x")), rfl⟩
  let tell : Text × Value → Told := fun _ => { value := some (.str "x") }
  have htells : ∀ m ∈ [member], Tells room registry input t m (tell m) :=
    List.forall_mem_singleton.mpr htold
  obtain ⟨q, us, hq, hkept, hvalues, hwarnings⟩ := (Progress.kept_start t).run ht hrecord hpure
    htells (fun _ _ _ => Branches.clear_nil _) (List.pairwise_singleton _ _)
  have hshows := hkept.shows
  have hwritten : written tell (Branches.values []) [member] =
      write [] (Target.ofText (deepTarget n)) (.str "x") := rfl
  rw [hvalues, hwritten, ofText_deepTarget, write_fields] at hshows
  have hnone : q.evaluations.filterMap (·.warning) = [] := hwarnings
  rw [mapRecord_of_run hq]
  exact ⟨_, by rw [hnone], hshows⟩

/-- A run on an object without members, in a store with nothing else. -/
theorem comes_deepTarget {s : Session} (hstore : s.store = (Reshape.load (.obj []) {}).2)
    (hregistry : s.settings.registry = .builtin) (n : Nat) :
    s.Comes [(deepTarget n, .str "=x")] (.ref 0)
      (s.run (.ref 0) (.obj [(deepTarget n, .str "=x")])).1
        (s.run (.ref 0) (.obj [(deepTarget n, .str "=x")])).2.store ∧
      ∃ output, (s.alone [(deepTarget n, .str "=x")] (.ref 0) (.ref 0)).result =
          .ok { output, warnings := [] } ∧
        (s.alone [(deepTarget n, .str "=x")] (.ref 0) (.ref 0)).store.Shows output
          ((List.replicate (n + 1) ()).foldr (fun _ w => .obj [("a", w)]) (.str "x")) := by
  obtain ⟨t, ht, hfull, hcell, -, hgains⟩ := exists_tree_load (.obj []) {}
  have hcell : t.cell = .ref 0 := hcell
  have hclosed : Store.Closed (Reshape.load (.obj []) {}).2 :=
    (closed_load (.obj []) Store.closed_empty).1
  have hhas : (Reshape.load (.obj []) {}).2.Has (.ref 0) := hcell ▸ ht.has hfull
  rw [← hstore] at ht hclosed hhas
  refine ⟨?_, ?_⟩
  · rw [← hcell]
    exact comes_of_yields (map_yields ht hfull hgains.nodup (hregistry ▸ Registry.pure_builtin))
  · exact mapRecord_deepTarget hclosed hhas (hregistry ▸ Registry.pure_builtin) n

/-- A profile stops a run whose output nests deeper than documents do. -/
theorem run_deepTarget :
    let workspace : Workspace := { tree := {}, home := [] }
    let mapping : Members := [(deepTarget 2999, .str "=x")]
    ∃ plain profiled : Session, open? {} workspace = some plain ∧
      open? { profiling := true } workspace = some profiled ∧
      (∃ output, ((plain.load (.obj [])).2.run (plain.load (.obj [])).1 (.obj mapping)).1 =
        .ok (.mapped output 1 [] none)) ∧
      ∃ e, ((profiled.load (.obj [])).2.run (profiled.load (.obj [])).1 (.obj mapping)).1 =
        .error (.depth e) := by
  intro workspace mapping
  have hsingle : (Reshape.load (.obj []) {}).2.elements? (.ref 0) = none := rfl
  let plain : Session := { settings := {}, pool := false, profile := none, workspace }
  let profiled : Session :=
    { settings := { profiling := true }, pool := false, profile := some {}, workspace }
  refine ⟨plain, profiled, rfl, rfl, ?_, ?_⟩
  · obtain ⟨hcomes, output, halone, -⟩ :=
      comes_deepTarget (s := (plain.load (.obj [])).2) rfl rfl 2999
    rcases hcomes.of_record hsingle halone with ⟨hprofiled, -⟩ | ⟨m, hmapped, hwarnings, -⟩
    · cases hprofiled
    · exact ⟨m.output, by rw [← hwarnings] at hmapped; exact hmapped⟩
  · obtain ⟨hcomes, output, halone, hshows⟩ :=
      comes_deepTarget (s := (profiled.load (.obj [])).2) rfl rfl 2999
    rcases hcomes.of_record hsingle halone with ⟨-, hdeep⟩ | ⟨m, -, -, ⟨C, hcell⟩, hsizes⟩
    · exact hdeep
    · obtain ⟨size, hsize⟩ := hsizes rfl
      rw [documentSize_of_unfolds (C.shows hshows hcell).unfolds] at hsize
      have hdepth :=
        (exists_drawingSize_iff (storable_nested (by decide) (.str (by decide)) 3000)).mp
        ⟨size, hsize⟩
      rw [depth_nested] at hdepth
      exact absurd hdepth (by decide)

end Session

end Reshape

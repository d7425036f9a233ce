import Reshape.Proofs.Mapping.Correspondence
import Reshape.Proofs.Store.Shown

/-!
# Silent entries

An entry is silent when its turn comes if it is left empty, if its path leads to nothing, or if its
transform is not found, fails or answers with nothing (`Silent`). These are the entries that come to
no value (`evaluateMember_value_eq_none_iff`). Where transforms are pure, a mapping has the same
output without any of them, and each takes its own warning with it and no other
(`mapRecord_leavesOut`). All that a silent entry leaves in the store are nodes that nothing leads
to, which the coupling of the two runs leaves out.
-/

namespace Reshape

/-- Why a directive gives a warning, and what the warning says. -/
def Directive.Fails (room : Nat) (registry : Registry) (record : Cell) (s : Store) (d : Directive)
    (message : Text) : Prop :=
  registry.lookup d.name = none ∧ d.unknownMessage room = .ok message ∨
    ∃ e t, d.Calls room registry record s (.failed e) t ∧ d.failedMessage room e = .ok message

/-- What stands in a mapping as an entry and leaves nothing in the output. -/
inductive Silent (room : Nat) (registry : Registry) (record : Cell) (s : Store) : Value → Prop
  | null : Silent room registry record s .null
  | empty : Silent room registry record s (.str [])
  | absent {v : Value} {text : Text} (entry : Entry.ofValue v = .source (.path text))
      (read : s.look.readText record text = .ok none) : Silent room registry record s v
  | unknown {v : Value} {d : Directive} (entry : Entry.ofValue v = .directive d)
      (unknown : registry.lookup d.name = none) : Silent room registry record s v
  | failed {v : Value} {d : Directive} {e : TransformError} {t : Store}
      (entry : Entry.ofValue v = .directive d)
      (calls : d.Calls (room - 1) registry record s (.failed e) t) : Silent room registry record s v
  | missing {v : Value} {d : Directive} {t : Store} (entry : Entry.ofValue v = .directive d)
      (calls : d.Calls (room - 1) registry record s (.value none) t) :
      Silent room registry record s v

/-! ### One entry -/

theorem Source.ofValue_eq_skip_iff {v : Value} :
    Source.ofValue v = .skip ↔ v = .null ∨ v = .str [] := by
  cases v with
  | str s =>
    have hno : ∀ v : Value, Source.literal v ≠ .skip := nofun
    rw [Source.ofValue]
    unfold Source.ofText
    split <;> simp_all
  | obj ms =>
    rw [Source.ofValue]
    split <;> simp
  | _ => simp [Source.ofValue]

theorem Entry.ofValue_eq_skip_iff {v : Value} :
    Entry.ofValue v = .source .skip ↔ v = .null ∨ v = .str [] := by
  rw [← Source.ofValue_eq_skip_iff]
  cases v with
  | obj ms =>
    have hno : Source.ofValue (.obj ms) ≠ .skip := fun h => by
      simpa using Source.ofValue_eq_skip_iff.mp h
    rw [Entry.ofValue]
    cases Directive.ofMembers? ms <;> simp [hno]
  | _ => simp [Entry.ofValue]

section

variable {room : Nat} {registry : Registry} {record : Cell} {s t : Store} {member : Text × Value}
  {e : Evaluation}

theorem Source.produce_none_iff {source : Source} {x : Option Cell}
    (h : (source.produce room record).within s = (.ok x, t)) :
    x = none ↔ source = .skip ∨ ∃ text, source = .path text ∧
      s.look.readText record text = .ok none := by
  cases source with
  | skip =>
    cases h
    simp
  | literal v =>
    obtain ⟨c, u, -, hc⟩ := Run.within_bind_ok_iff.mp h
    cases hc
    simp
  | path text =>
    obtain ⟨found, u, hread, hc⟩ := Run.within_bind_ok_iff.mp h
    rw [Run.read_within] at hread
    cases found with
    | none =>
      cases hc
      have hnone : s.look.readText record text = .ok none := by
        split at hread <;> first | assumption | cases hread
      simp [hnone]
    | some c =>
      obtain ⟨d, u', -, hd⟩ := Run.within_bind_ok_iff.mp hc
      cases hd
      have hsome : s.look.readText record text ≠ .ok none := fun hnone => by
        rw [hnone] at hread
        cases hread
      simp [hsome]

/-- The silent entries are those that come to no value. -/
theorem evaluateMember_value_eq_none_iff
    (h : (evaluateMember room registry record member).within s = (.ok e, t)) :
    e.value = none ↔ Silent room registry record s member.2 := by
  cases hm : Entry.ofValue member.2 with
  | source source =>
    rw [evaluateMember_source hm] at h
    split at h
    · next x u hproduce =>
      cases h
      rw [Source.produce_none_iff hproduce]
      constructor
      · rintro (rfl | ⟨text, rfl, hread⟩)
        · rcases Entry.ofValue_eq_skip_iff.mp hm with hnull | hempty
          · rw [hnull]
            exact .null
          · rw [hempty]
            exact .empty
        · exact .absent hm hread
      · intro hsilent
        generalize member.2 = v at hm hsilent
        cases hsilent with
        | null => exact .inl (Entry.source.inj (hm.symm.trans rfl))
        | empty => exact .inl (Entry.source.inj (hm.symm.trans rfl))
        | absent entry hread => exact .inr ⟨_, Entry.source.inj (hm.symm.trans entry), hread⟩
        | unknown entry _ => cases hm.symm.trans entry
        | failed entry _ => cases hm.symm.trans entry
        | missing entry _ => cases hm.symm.trans entry
    · cases h
  | directive d =>
    rw [evaluateMember_directive hm, Directive.evaluate_ok_iff] at h
    constructor
    · intro hnone
      rcases h with ⟨hl, -, m, -, rfl⟩ | ⟨err, m, hcalls, -, rfl⟩ | ⟨value, hcalls, rfl⟩
      · exact .unknown hm hl
      · exact .failed hm hcalls
      · cases hnone
        exact .missing hm hcalls
    · intro hsilent
      rcases h with ⟨-, -, m, -, rfl⟩ | ⟨err, m, -, -, rfl⟩ | ⟨value, hcalls, rfl⟩
      · rfl
      · rfl
      · have hsame : ∀ {d' answer u}, Entry.ofValue member.2 = .directive d' →
            d'.Calls (room - 1) registry record s answer u → answer = .value value := by
          intro d' answer u entry hcalls'
          cases hm.symm.trans entry
          exact hcalls'.unique hcalls
        have hknown : ∀ {d'}, Entry.ofValue member.2 = .directive d' →
            registry.lookup d'.name ≠ none := by
          intro d' entry hl
          cases hm.symm.trans entry
          obtain ⟨found, -, -, hl', -⟩ := hcalls
          cases hl.symm.trans hl'
        generalize member.2 = v at hm hsilent hsame hknown
        cases hsilent with
        | null => cases hm
        | empty => cases hm
        | absent entry _ => cases hm.symm.trans entry
        | unknown entry hl => exact absurd hl (hknown entry)
        | failed entry hcalls' => cases hsame entry hcalls'
        | missing entry hcalls' =>
          cases hsame entry hcalls'
          rfl

/-- The warnings are of the directives that fail. -/
theorem evaluateMember_warning_iff
    (h : (evaluateMember room registry record member).within s = (.ok e, t)) {w : Warning} :
    e.warning = some w ↔ ∃ d message, Entry.ofValue member.2 = .directive d ∧
      d.Fails (room - 1) registry record s message ∧
      w = { target := member.1, name := d.name, message } := by
  cases hm : Entry.ofValue member.2 with
  | source source =>
    rw [evaluateMember_source hm] at h
    split at h <;> cases h
    simp
  | directive d =>
    rw [evaluateMember_directive hm, Directive.evaluate_ok_iff] at h
    have hfails : ∀ m, d.Fails (room - 1) registry record s m ↔
        e.warning = some { target := member.1, name := d.name, message := m } := by
      intro m
      rcases h with ⟨hl, -, m', hm', rfl⟩ | ⟨err, m', hcalls, hm', rfl⟩ | ⟨value, hcalls, rfl⟩
      · constructor
        · rintro (⟨-, hmessage⟩ | ⟨err, u, hcalls, -⟩)
          · cases hm'.symm.trans hmessage
            rfl
          · obtain ⟨found, -, -, hl', -⟩ := hcalls
            cases hl.symm.trans hl'
        · rintro ⟨⟩
          exact .inl ⟨hl, hm'⟩
      · constructor
        · rintro (⟨hl, -⟩ | ⟨err', u, hcalls', hmessage⟩)
          · obtain ⟨found, -, -, hl', -⟩ := hcalls
            cases hl.symm.trans hl'
          · cases hcalls.unique hcalls'
            cases hm'.symm.trans hmessage
            rfl
        · rintro ⟨⟩
          exact .inr ⟨err, t, hcalls, hm'⟩
      · constructor
        · rintro (⟨hl, -⟩ | ⟨err, u, hcalls', -⟩)
          · obtain ⟨found, -, -, hl', -⟩ := hcalls
            cases hl.symm.trans hl'
          · cases hcalls.unique hcalls'
        · rintro ⟨⟩
    have hshape : ∀ w, e.warning = some w →
        ∃ m, w = { target := member.1, name := d.name, message := m } := by
      rintro w hw
      rcases h with ⟨-, -, m, -, rfl⟩ | ⟨err, m, -, -, rfl⟩ | ⟨value, -, rfl⟩ <;> cases hw
      · exact ⟨m, rfl⟩
      · exact ⟨m, rfl⟩
    constructor
    · intro hw
      obtain ⟨m, rfl⟩ := hshape w hw
      exact ⟨d, m, rfl, (hfails m).mpr hw, rfl⟩
    · rintro ⟨d', m, hd, hm', rfl⟩
      cases hd
      exact (hfails m).mp hm'

end

/-! ### Mappings -/

/-- Silent entries are left out of a mapping: `kept` are the others, and `warnings` is what they
warn of when all entries are there. -/
inductive LeavesOut (room : Nat) (registry : Registry) (record : Cell) :
    Progress → Members → (kept : Members) → (warnings : List Warning) → Prop
  | nil (p : Progress) : LeavesOut room registry record p [] [] []
  | keep {p : Progress} {member : Text × Value} {rest kept : Members} {warnings : List Warning}
      {e : Evaluation} {s : Store}
      (turn : (evaluateMember room registry record member).within p.canvas.store = (.ok e, s))
      (others : LeavesOut room registry record (p.add s e) rest kept warnings) :
      LeavesOut room registry record p (member :: rest) (member :: kept)
        (e.warning.toList ++ warnings)
  | leave {p : Progress} {member : Text × Value} {rest kept : Members} {warnings : List Warning}
      {e : Evaluation} {s : Store}
      (turn : (evaluateMember room registry record member).within p.canvas.store = (.ok e, s))
      (silent : Silent room registry record p.canvas.store member.2)
      (others : LeavesOut room registry record (p.add s e) rest kept warnings) :
      LeavesOut room registry record p (member :: rest) kept warnings

section

variable {room : Nat} {registry : Registry} {record : Cell} {mapping kept : Members} {s : Store}
  {warnings : List Warning}

/-- Any entries can be left out of a run that come to no value in it. -/
theorem exists_leavesOut {p q : Progress} (h : p.run room registry record mapping = (none, q))
    (keep : Text × Value → Bool) :
    ∃ es, q.evaluations = p.evaluations ++ es ∧ es.length = mapping.length ∧
      ((∀ x ∈ mapping.zip es, keep x.1 = false → x.2.value = none) →
        LeavesOut room registry record p mapping (mapping.filter keep)
          (((mapping.zip es).filter (keep ·.1)).filterMap (·.2.warning))) := by
  induction mapping generalizing p with
  | nil =>
    cases h
    exact ⟨[], by simp, rfl, fun _ => .nil _⟩
  | cons member rest ih =>
    obtain ⟨e, s, he, hrest⟩ := Progress.run_cons_iff.mp h
    obtain ⟨es, hes, hlength, hleaves⟩ := ih hrest
    refine ⟨e :: es, by rw [hes, Progress.add, List.append_assoc]; rfl, congrArg (· + 1) hlength,
      fun hnone => ?_⟩
    rw [List.zip_cons_cons, List.forall_mem_cons] at hnone
    have hothers := hleaves hnone.2
    rw [List.zip_cons_cons]
    cases hk : keep member with
    | true =>
      rw [List.filter_cons_of_pos hk, List.filter_cons_of_pos (by exact hk)]
      have hwarnings := LeavesOut.keep he hothers
      cases hw : e.warning with
      | none => simpa [hw] using hwarnings
      | some w => simpa [hw] using hwarnings
    | false =>
      rw [List.filter_cons_of_neg (by simp [hk]), List.filter_cons_of_neg (by simp [hk])]
      exact .leave he ((evaluateMember_value_eq_none_iff he).mp (hnone.1 hk)) hothers

theorem leavesOut_self {p : Progress}
    (h : (Progress.ofStore s).run room registry record mapping = (none, p)) :
    LeavesOut room registry record (.ofStore s) mapping mapping
      (p.evaluations.filterMap (·.warning)) := by
  obtain ⟨es, hes, hlength, hleaves⟩ := exists_leavesOut h fun _ => true
  have hes' : p.evaluations = es := hes
  have hself := hleaves fun _ _ hkeep => by cases hkeep
  have hwarnings : (mapping.zip es).filterMap (·.2.warning) =
      ((mapping.zip es).map Prod.snd).filterMap (·.warning) := by
    rw [List.filterMap_map]
    rfl
  rw [List.filter_true, List.filter_true, hwarnings,
    List.map_snd_zip (Nat.le_of_eq hlength)] at hself
  rw [hes']
  exact hself

/-- Coupled runs, one of them without some silent entries, go on to be coupled. What a silent entry
adds is outside of the coupling. -/
theorem LeavesOut.run_ends {base : Nat} (hpure : registry.Pure base) {p q : Progress}
    (h : LeavesOut room registry record p mapping kept warnings)
    (hrun : p.run room registry record mapping = (none, q)) (p' : Progress)
    (C : Coupling p.canvas.store p'.canvas.store) (hC : C.Fixes base)
    (hrecord : Cell.Rel C.rel record record)
    (hms : Keyed.Rel (Cell.Rel C.rel) p.canvas.members p'.canvas.members) :
    ∃ q', p'.run room registry record kept = (none, q') ∧
      q'.evaluations.filterMap (·.warning) = p'.evaluations.filterMap (·.warning) ++ warnings ∧
      ∃ D : Coupling q.canvas.store q'.canvas.store,
        Keyed.Rel (Cell.Rel D.rel) q.canvas.members q'.canvas.members := by
  induction h generalizing p' with
  | nil p =>
    cases hrun
    exact ⟨p', rfl, by simp, C, hms⟩
  | @keep p member rest kept warnings e s turn _ ih =>
    rw [Progress.run_cons_ok turn] at hrun
    have hmember : C.Ends Evaluation.Rel
        ((evaluateMember room registry record member).within p.canvas.store)
        ((evaluateMember room registry record member).within p'.canvas.store) :=
      evaluateMember_ends hpure C hC member fun text _ => C.readsAlike hrecord text
    obtain ⟨e', s', turn', D, hstep, he⟩ := hmember.exists_ok turn
    have hwrite : Canvas.Follow D ({ p.canvas with store := s }.writeOptional e.target e.value)
        ({ p'.canvas with store := s' }.writeOptional e'.target e'.value) := by
      rw [← he.target]
      exact @Canvas.writeOptional_follow { p.canvas with store := s } { p'.canvas with store := s' }
        e.target D (hstep.members hms) _ _ he.value
    obtain ⟨E, hstep', hms'⟩ := hwrite
    have hstep'' := hstep.trans hstep'
    obtain ⟨q', hrun', hwarnings, hend⟩ :=
      ih hrun (p'.add s' e') E (hstep''.fixes hC) (hstep''.cell hrecord) hms'
    refine ⟨q', by rw [Progress.run_cons_ok turn', hrun'], ?_, hend⟩
    rw [hwarnings, Progress.add, List.filterMap_append, List.append_assoc, he.warning]
    cases hw : e'.warning <;> simp [hw]
  | @leave p member rest kept warnings e s turn silent _ ih =>
    rw [Progress.run_cons_ok turn] at hrun
    have hgrows := evaluateMember_grows hpure.grows room record member p.canvas.store
    rw [turn] at hgrows
    have hnone := (evaluateMember_value_eq_none_iff turn).mpr silent
    have hadd : (p.add s e).canvas = { p.canvas with store := s } := by
      rw [Progress.add, hnone]
      rfl
    have hleft : ∀ a b, C.rel a b →
        (p.add s e).canvas.store.get? a = p.canvas.store.get? a := fun a b hab => by
      rw [hadd]
      exact hgrows.get?_eq (C.lt_left hab)
    have hms' : Keyed.Rel (Cell.Rel C.rel) (p.add s e).canvas.members p'.canvas.members := by
      rw [hadd]
      exact hms
    exact ih hrun p' (C.transfer hleft fun _ _ _ => rfl) hC hrecord hms'

/-- Silent entries leave no trace: without any of them a record that is mapped is mapped again, to
the same output, and with the warnings of the others. The warnings are of the directives that fail,
in the order of the mapping. -/
theorem mapRecord_leavesOut {mapped : Mapped} (hs : s.Closed)
    (hrecord : s.Has record) (hpure : registry.Pure s.size)
    (hrun : (mapRecord room registry mapping record s).result = .ok mapped) :
    LeavesOut room registry record (.ofStore s) mapping mapping mapped.warnings ∧
    (∀ member e t u, (evaluateMember room registry record member).within t = (.ok e, u) →
      ∀ w, e.warning = some w ↔ ∃ d message, Entry.ofValue member.2 = .directive d ∧
        d.Fails (room - 1) registry record t message ∧
        w = { target := member.1, name := d.name, message }) ∧
    ∀ kept warnings, LeavesOut room registry record (.ofStore s) mapping kept warnings →
      ∃ mapped', (mapRecord room registry kept record s).result = .ok mapped' ∧
        mapped'.warnings = warnings ∧
        (mapRecord room registry mapping record s).store.Same
          (mapRecord room registry kept record s).store mapped.output mapped'.output := by
  obtain ⟨p, hp, rfl⟩ := mapRecord_ok_iff.mp hrun
  refine ⟨?_, fun member e t u he w => evaluateMember_warning_iff he, fun kept warnings h => ?_⟩
  · exact leavesOut_self hp
  · obtain ⟨p', hp', hwarnings, D, hms⟩ := h.run_ends hpure hp
      (.ofStore s) (.self hs) (fun a ha => ⟨rfl, ha⟩) (Coupling.cell_self hs hrecord) .nil
    refine ⟨_, mapRecord_ok_iff.mpr ⟨p', hp', rfl⟩, hwarnings, ?_⟩
    rw [mapRecord_of_run hp, mapRecord_of_run hp']
    have hnode : Node.Rel D.rel (.obj p.canvas.members) (.obj p'.canvas.members) := .obj hms
    exact ⟨D.push hnode, .ref (D.push_rel hnode)⟩

/-- Silent in each of the ways, and beside them a transform that answers with `null`, an empty text
that is meant, and a path that leads to nothing in the record but to what an entry before it has
written there. -/
theorem mapRecord_leavesOut_kinds :
    let registry := Registry.ofList [("none", .function fun _ _ s => (.value none, s)),
      ("null", .function fun _ _ s => (.value (some (.scalar .null)), s)),
      ("boom", .function fun _ _ s => (.failed (.unfit "boom"), s)), ("same", .function .same)]
    let call (name : String) : Value := .obj [("$transform", .str name), ("$path", .str "x")]
    let mapping : Members := [("a", .null), ("b", .str []), ("c.d", .str "p.q"), ("e", call "no"),
      ("f[]", call "boom"), ("g", call "none"), ("h", call "null"), ("i", .str "="),
      ("j", call "same"), ("j.z", .str "=new"), ("k", .str "x.z")]
    let keep : Text × Value → Bool := fun member =>
      member.1 ∈ (["e", "h", "i", "j", "j.z", "k"] : List Text)
    let r := load (.obj [("x", .obj [("y", .int 1)])]) {}
    let o := mapRecord 100 registry mapping r.1 r.2
    let o' := mapRecord 100 registry (mapping.filter keep) r.1 r.2
    ∃ mapped mapped', o.result = .ok mapped ∧ o'.result = .ok mapped' ∧
      mapped'.warnings = [⟨"e", .str "no", "Unknown transform: no"⟩] ∧
      o.store.Same o'.store mapped.output mapped'.output := by
  intro registry call mapping keep r
  have hreturns : (mapRecord 100 registry mapping r.1 r.2).result.isOk = true := by decide +kernel
  obtain ⟨mapped, hrun⟩ := Traverse.exists_ok_of_isOk hreturns
  obtain ⟨hclosed, hrecord⟩ := closed_load (.obj [("x", .obj [("y", .int 1)])]) Store.closed_empty
  have hpure : registry.Pure r.2.size := by
    refine Registry.pure_ofList ?_
    simp only [List.forall_mem_cons, List.not_mem_nil, false_imp_iff, implies_true, and_true]
    exact ⟨Transform.pure_answer fun _ => .value .none,
      Transform.pure_answer fun _ => .value (.some (.scalar .null)),
      Transform.pure_answer fun _ => .failed _, Transform.pure_same⟩
  obtain ⟨-, -, hleaves⟩ := mapRecord_leavesOut hclosed hrecord hpure hrun
  obtain ⟨p, hp, -⟩ := mapRecord_ok_iff.mp hrun
  obtain ⟨es, hes, -, hleft⟩ := exists_leavesOut hp keep
  have hes' : es = ((Progress.ofStore r.2).run 100 registry r.1 mapping).2.evaluations := by
    rw [hp, hes]
    rfl
  have hnone : ∀ x ∈ mapping.zip es, keep x.1 = false → x.2.value = none := by
    rw [hes']
    decide +kernel
  obtain ⟨mapped', hrun', hwarnings, hsame⟩ := hleaves _ _ (hleft hnone)
  refine ⟨mapped, mapped', hrun, hrun', hwarnings.trans ?_, hsame⟩
  rw [hes']
  decide +kernel

end

end Reshape

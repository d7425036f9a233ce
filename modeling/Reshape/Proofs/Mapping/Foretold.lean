import Mathlib.Data.List.Nodup
import Reshape.Mapping.Check
import Reshape.Proofs.Mapping.Run
import Reshape.Proofs.Value.Display

/-!
# What a check foretells

A check marks the members of a mapping whose transform it takes to have no usable name (`isMarked`),
and a run leaves out those whose transform it does not find (`isUnfound`). Both look at the same
name (`calledName?`) and judge it alike unless it is `Disputed`, so the targets that they warn of
are the same ones, in order, exactly if no name in the mapping is
(`unknownTargets_eq_nameTargets_iff`). A check comes to a verdict where a run has come to an output:
what a check shows the run has shown too (`exists_verdict`).
-/

namespace Reshape

/-- What stands where a transform is named, in the value of a member that calls one. -/
def calledName? : Value → Option Value
  | .obj ms => Keyed.get? ms Keyword.transform
  | _ => none

/-- What a warning of an unknown transform begins with. -/
def unknownPrefix : Text := "Unknown transform: "

/-- The targets of the members that a run left out because their transform is unknown. -/
def Mapped.unknownTargets (mapped : Mapped) : List Text :=
  (mapped.warnings.filter fun w => unknownPrefix.isPrefixOf w.message).map (·.target)

def Caution.isAboutName : Caution → Bool
  | .unusableName _ | .unknownTransform _ => true
  | _ => false

/-- The targets of the members that a check marks for the name of their transform. -/
def Verdict.nameTargets (verdict : Verdict) : List Text :=
  (verdict.warnings.filter (·.caution.isAboutName)).map (·.target)

/-- Whether a run does not find the transform that a member calls. -/
def isUnfound (registry : Registry) (member : Text × Value) : Bool :=
  (calledName? member.2).any fun name => (registry.lookup name).isNone

/-- Whether a name is a text, not empty, with something under it in the registry. -/
def Registry.accepts (registry : Registry) (name : Value) : Bool :=
  (usableName? name).any registry.contains

/-- Whether a check takes the transform that a member calls to have no usable name. -/
def isMarked (registry : Registry) (member : Text × Value) : Bool :=
  (calledName? member.2).any fun name => !registry.accepts name

/-- A name that a check and a run judge differently: the empty text if a transform stands under
it, and any other text if only `null` does. -/
def Registry.Disputed (registry : Registry) : Value → Prop
  | .str [] => (registry.lookup (.str [])).isSome = true
  | .str s => registry.contains s = true ∧ (registry.lookup (.str s)).isNone = true
  | _ => False

instance (registry : Registry) : (name : Value) → Decidable (registry.Disputed name)
  | .str [] => inferInstanceAs (Decidable (_ = true))
  | .str (_ :: _) => inferInstanceAs (Decidable (_ ∧ _))
  | .null | .bool _ | .int _ | .double _ | .list _ | .obj _ => inferInstanceAs (Decidable False)

variable {room : Nat} {registry : Registry} {record : Cell} {member : Text × Value}
  {mapping : Members} {s t : Store}

/-! ### The run -/

theorem Entry.ofValue_of_calledName? {v name : Value} (h : calledName? v = some name) :
    ∃ d : Directive, Entry.ofValue v = .directive d ∧ d.name = name := by
  cases v with
  | obj ms =>
    rw [calledName?] at h
    rw [Entry.ofValue, Directive.ofMembers?, h]
    exact ⟨_, rfl, rfl⟩
  | _ => cases h

theorem Entry.ofValue_of_calledName?_eq_none {v : Value} (h : calledName? v = none) :
    ∃ s : Source, Entry.ofValue v = .source s := by
  cases v with
  | obj ms =>
    rw [calledName?] at h
    rw [Entry.ofValue, Directive.ofMembers?, h]
    exact ⟨_, rfl⟩
  | _ => exact ⟨_, rfl⟩

theorem isPrefixOf_unknownMessage {d : Directive} {m : Text} (h : d.unknownMessage room = .ok m) :
    unknownPrefix.isPrefixOf m = true := by
  obtain ⟨name, -, hm⟩ := Traverse.bind_eq_ok_iff.mp h
  cases hm
  exact List.isPrefixOf_iff_prefix.mpr (List.prefix_append _ _)

/-- A warning of a transform that fails begins with another letter. -/
theorem isPrefixOf_failedMessage {d : Directive} {e : TransformError} {m : Text}
    (h : d.failedMessage room e = .ok m) : unknownPrefix.isPrefixOf m = false := by
  obtain ⟨name, -, hm⟩ := Traverse.bind_eq_ok_iff.mp h
  obtain ⟨text, -, hm⟩ := Traverse.bind_eq_ok_iff.mp hm
  cases hm
  rfl

/-- An entry that is not stopped gives the warning of an unknown transform exactly if its transform
is not found. -/
theorem warning_unknown {e : Evaluation}
    (h : (evaluateMember room registry record member).within s = (.ok e, t)) :
    (e.warning.toList.filter fun w => unknownPrefix.isPrefixOf w.message).map (·.target) =
      ([member].filter (isUnfound registry)).map Prod.fst := by
  cases hc : calledName? member.2 with
  | none =>
    obtain ⟨source, hs⟩ := Entry.ofValue_of_calledName?_eq_none hc
    rw [evaluateMember_source hs] at h
    split at h <;> cases h
    simp [isUnfound, hc]
  | some name =>
    obtain ⟨d, hd, rfl⟩ := Entry.ofValue_of_calledName? hc
    rw [evaluateMember_directive hd, Directive.evaluate_ok_iff] at h
    rcases h with ⟨hl, -, m, hm, rfl⟩ | ⟨err, m, ⟨found, args, u, hl, -⟩, hm, rfl⟩ |
      ⟨value, ⟨found, args, u, hl, -⟩, rfl⟩
    · simp [isUnfound, hc, hl, isPrefixOf_unknownMessage hm]
    · simp [isUnfound, hc, hl, isPrefixOf_failedMessage hm]
    · simp [isUnfound, hc, hl]

theorem unknownTargets_run {p q : Progress}
    (h : p.run room registry record mapping = (none, q)) :
    ((q.evaluations.filterMap (·.warning)).filter fun w =>
        unknownPrefix.isPrefixOf w.message).map (·.target) =
      ((p.evaluations.filterMap (·.warning)).filter fun w =>
        unknownPrefix.isPrefixOf w.message).map (·.target) ++
        (mapping.filter (isUnfound registry)).map Prod.fst := by
  induction mapping generalizing p with
  | nil =>
    cases h
    simp
  | cons member rest ih =>
    obtain ⟨e, s, he, hrest⟩ := Progress.run_cons_iff.mp h
    have hwarning : [e].filterMap (·.warning) = e.warning.toList := by
      cases hw : e.warning <;> simp [hw]
    rw [ih hrest, Progress.add]
    dsimp only
    rw [List.filterMap_append, hwarning, List.filter_append, List.map_append, warning_unknown he,
      List.append_assoc, ← List.map_append, ← List.filter_append, List.singleton_append]

theorem unknownTargets_eq {mapped : Mapped}
    (hrun : (mapRecord room registry mapping record s).result = .ok mapped) :
    mapped.unknownTargets = (mapping.filter (isUnfound registry)).map Prod.fst := by
  obtain ⟨p, hp, rfl⟩ := mapRecord_ok_iff.mp hrun
  exact unknownTargets_run hp

/-! ### The check -/

theorem filter_isAboutName_targetCautions (target : Text) :
    (targetCautions target).filter Caution.isAboutName = [] := by
  unfold targetCautions
  split <;> split <;> rfl

theorem filter_isAboutName_argumentCautions (ms : Members) :
    (argumentCautions ms).filter Caution.isAboutName = [] := by
  unfold argumentCautions
  split
  · rfl
  · rw [List.filter_filterMap, List.filterMap_eq_nil_iff]
    rintro ⟨arg, position⟩ -
    dsimp only
    split <;> rfl

theorem filter_isAboutName_namedCautions (name : Value) (ms : Members) :
    (namedCautions name ms).filter Caution.isAboutName = [] := by
  unfold namedCautions
  split
  · rfl
  · rw [List.filter_append, filter_isAboutName_argumentCautions, List.append_nil]
    unfold argumentSourceCaution?
    split <;> rfl

/-- What is said of a name: that it is about the name, unless the registry accepts it. -/
theorem nameCaution?_ok {name : Value} {caution? : Option Caution}
    (h : nameCaution? room (some registry) name = .ok caution?) :
    caution?.toList.filter Caution.isAboutName = caution?.toList ∧
      caution?.isSome = !registry.accepts name := by
  unfold nameCaution? at h
  unfold Registry.accepts
  cases hname : usableName? name with
  | none =>
    rw [hname] at h
    obtain ⟨shown, -, hc⟩ := Traverse.bind_eq_ok_iff.mp h
    cases hc
    exact ⟨rfl, rfl⟩
  | some s =>
    rw [hname] at h
    cases h
    cases hcontains : registry.contains s <;> simp [hcontains, Caution.isAboutName]

/-- Of the cautions about a member, one at most is about a name. -/
theorem filter_isAboutName_valueCautions {v : Value} {cautions : List Caution}
    (h : valueCautions room (some registry) v = .ok cautions) :
    (cautions.filter Caution.isAboutName).length =
      (((calledName? v).filter fun name => !registry.accepts name).toList).length := by
  cases v with
  | obj ms =>
    rw [valueCautions, directiveCautions] at h
    rw [calledName?]
    cases hname : Keyed.get? ms Keyword.transform with
    | none =>
      rw [hname] at h
      cases h
      rfl
    | some name =>
      rw [hname] at h
      obtain ⟨caution?, hcaution, hall⟩ := Traverse.bind_eq_ok_iff.mp h
      cases hall
      obtain ⟨hself, hsome⟩ := nameCaution?_ok hcaution
      rw [List.filter_append, hself, filter_isAboutName_namedCautions, List.append_nil,
        Option.filter_some, ← hsome]
      cases caution? <;> rfl
  | _ =>
    cases h
    rfl

theorem nameTargets_memberRemarks {remarks : List Remark}
    (h : memberRemarks room (some registry) member = .ok remarks) :
    (remarks.filter (·.caution.isAboutName)).map (·.target) =
      ([member].filter (isMarked registry)).map Prod.fst := by
  obtain ⟨cautions, hcautions, hall⟩ := Traverse.bind_eq_ok_iff.mp h
  cases hall
  have hlength := filter_isAboutName_valueCautions hcautions
  rw [List.filter_map, List.map_map, Function.comp_def, Function.comp_def, List.filter_append,
    filter_isAboutName_targetCautions, List.nil_append, List.map_const', hlength,
    List.filter_singleton, isMarked]
  cases calledName? member.2 with
  | none => rfl
  | some name =>
    rw [Option.filter_some, Option.any_some]
    cases registry.accepts name <;> rfl

theorem nameTargets_eq {verdict : Verdict}
    (h : checkMapping room (some registry) (.obj mapping) = .ok verdict) :
    verdict.nameTargets = (mapping.filter (isMarked registry)).map Prod.fst := by
  obtain ⟨remarks, hremarks, hall⟩ := Traverse.bind_eq_ok_iff.mp h
  cases hall
  rw [Verdict.nameTargets]
  dsimp only
  clear h
  induction mapping generalizing remarks with
  | nil =>
    cases hremarks
    rfl
  | cons member rest ih =>
    rw [List.mapM_cons] at hremarks
    obtain ⟨first, hfirst, hremarks⟩ := Traverse.bind_eq_ok_iff.mp hremarks
    obtain ⟨others, hothers, hremarks⟩ := Traverse.bind_eq_ok_iff.mp hremarks
    cases hremarks
    rw [List.flatten_cons, List.filter_append, List.map_append, nameTargets_memberRemarks hfirst,
      ih others hothers, ← List.map_append,
      ← List.filter_append, List.singleton_append]

/-! ### Their agreement -/

theorem isNone_lookup_eq_not_accepts_iff {name : Value} :
    (registry.lookup name).isNone = !registry.accepts name ↔ ¬ registry.Disputed name := by
  cases name with
  | str s =>
    cases s with
    | nil =>
      cases hl : registry.lookup (.str []) <;>
        simp [Registry.Disputed, Registry.accepts, usableName?, hl]
    | cons a s =>
      by_cases hc : registry.contains (a :: s) = true
      · cases hl : registry.lookup (.str (a :: s)) <;>
          simp [Registry.Disputed, Registry.accepts, usableName?, hc, hl]
      · have hl : registry.lookup (.str (a :: s)) = none := by
          rw [Registry.contains, Bool.not_eq_true, Option.isSome_eq_false_iff,
            Option.isNone_iff_eq_none] at hc
          rw [Registry.lookup, hc]
          rfl
        simp [Registry.Disputed, Registry.accepts, usableName?, hc, hl]
  | _ => simp [Registry.Disputed, Registry.lookup, Registry.accepts, usableName?]

theorem isUnfound_eq_isMarked_iff :
    isUnfound registry member = isMarked registry member ↔
      ∀ name ∈ calledName? member.2, ¬ registry.Disputed name := by
  rw [isUnfound, isMarked]
  cases calledName? member.2 with
  | none => simp
  | some name => simpa using isNone_lookup_eq_not_accepts_iff

/-- Keys that differ tell which members were picked. -/
theorem keys_filter_eq_iff (hkeys : (Keyed.keys mapping).Nodup) {p q : Text × Value → Bool} :
    (mapping.filter p).map Prod.fst = (mapping.filter q).map Prod.fst ↔
      ∀ member ∈ mapping, p member = q member := by
  have himp : ∀ {p q : Text × Value → Bool},
      (mapping.filter p).map Prod.fst = (mapping.filter q).map Prod.fst →
      ∀ member ∈ mapping, p member = true → q member = true := by
    intro p q heq member hm hp
    have hmem : member.1 ∈ (mapping.filter q).map Prod.fst :=
      heq ▸ List.mem_map_of_mem (List.mem_filter.mpr ⟨hm, hp⟩)
    obtain ⟨other, hother, hkey⟩ := List.mem_map.mp hmem
    obtain ⟨ho, hq⟩ := List.mem_filter.mp hother
    exact List.inj_on_of_nodup_map hkeys ho hm hkey ▸ hq
  constructor
  · intro heq member hm
    exact Bool.eq_iff_iff.mpr ⟨himp heq member hm, himp heq.symm member hm⟩
  · intro hpq
    rw [List.filter_congr hpq]

/-! ### The verdict is there -/

/-- A name that is no text has a text to be shown by, if an entry that calls it is not stopped. -/
theorem exists_quoted_of_evaluateMember {name : Value} {e : Evaluation}
    (hname : calledName? member.2 = some name) (hno : ∀ s, name ≠ .str s)
    (h : (evaluateMember room registry record member).within s = (.ok e, t)) :
    ∃ shown, name.quoted (room - 2) = .ok shown := by
  obtain ⟨d, hd, rfl⟩ := Entry.ofValue_of_calledName? hname
  rw [evaluateMember_directive hd, Directive.evaluate_ok_iff] at h
  have hl : registry.lookup d.name = none := by
    unfold Registry.lookup
    split
    · next s hs => exact absurd hs (hno s)
    · rfl
  rcases h with ⟨-, -, m, hm, -⟩ | ⟨err, m, ⟨found, args, u, hl', -⟩, -⟩ |
    ⟨value, ⟨found, args, u, hl', -⟩, -⟩
  · obtain ⟨text, htext, -⟩ := Traverse.bind_eq_ok_iff.mp hm
    unfold Value.display at htext
    split at htext
    · next s hs => exact absurd hs (hno s)
    · obtain ⟨shown, hshown, -⟩ := Traverse.bind_eq_ok_iff.mp htext
      exact ⟨shown, hshown⟩
  · cases hl.symm.trans hl'
  · cases hl.symm.trans hl'

theorem exists_nameCaution? {checkRoom : Nat} (hroom : room ≤ checkRoom + 2)
    (hcheck : 0 < checkRoom)
    {name : Value} {e : Evaluation} (hname : calledName? member.2 = some name)
    (h : (evaluateMember room registry record member).within s = (.ok e, t)) :
    ∃ caution?, nameCaution? checkRoom (some registry) name = .ok caution? := by
  have hshown : ∃ shown, name.quoted checkRoom = .ok shown := by
    by_cases hstr : ∃ s, name = .str s
    · obtain ⟨s, rfl⟩ := hstr
      obtain ⟨n, rfl⟩ : ∃ n, checkRoom = n + 1 := ⟨checkRoom - 1, by omega⟩
      exact ⟨_, rfl⟩
    · obtain ⟨shown, hshown⟩ := exists_quoted_of_evaluateMember hname (fun s hs => hstr ⟨s, hs⟩) h
      exact ⟨shown, Value.quoted_mono (by omega) hshown⟩
  obtain ⟨shown, hshown⟩ := hshown
  unfold nameCaution?
  split
  · exact ⟨_, by rw [hshown]; rfl⟩
  · exact ⟨_, rfl⟩

theorem exists_memberRemarks {checkRoom : Nat} (hroom : room ≤ checkRoom + 1)
    (hcheck : 1 < checkRoom) {e : Evaluation}
    (h : (evaluateMember room registry record member).within s = (.ok e, t)) :
    ∃ remarks, memberRemarks checkRoom (some registry) member = .ok remarks := by
  have hcautions : ∃ cautions, valueCautions (checkRoom - 1) (some registry) member.2 =
      .ok cautions := by
    cases hv : member.2 with
    | obj ms =>
      cases hname : Keyed.get? ms Keyword.transform with
      | none => exact ⟨_, by rw [valueCautions, directiveCautions, hname]; rfl⟩
      | some name =>
        have hcalled : calledName? member.2 = some name := by rw [hv, calledName?, hname]
        obtain ⟨caution?, hcaution⟩ := exists_nameCaution?
          (show room ≤ checkRoom - 1 + 2 by omega) (by omega) hcalled h
        exact ⟨_, by rw [valueCautions, directiveCautions, hname]; dsimp only; rw [hcaution]; rfl⟩
    | _ => exact ⟨[], rfl⟩
  obtain ⟨cautions, hcautions⟩ := hcautions
  exact ⟨_, by rw [memberRemarks, hcautions]; rfl⟩

theorem exists_evaluation {p q : Progress} (h : p.run room registry record mapping = (none, q)) :
    ∀ member ∈ mapping, ∃ s e t,
      (evaluateMember room registry record member).within s = (.ok e, t) := by
  induction mapping generalizing p with
  | nil => exact nofun
  | cons member rest ih =>
    obtain ⟨e, s, he, hrest⟩ := Progress.run_cons_iff.mp h
    exact List.forall_mem_cons.mpr ⟨⟨_, e, s, he⟩, ih hrest⟩

/-- A check comes to a verdict where a run has come to an output, with one call less at most. -/
theorem exists_verdict {checkRoom : Nat} {mapped : Mapped} (hroom : room ≤ checkRoom + 1)
    (hcheck : 1 < checkRoom)
    (hrun : (mapRecord room registry mapping record s).result = .ok mapped) :
    ∃ verdict, checkMapping checkRoom (some registry) (.obj mapping) = .ok verdict := by
  obtain ⟨p, hp, -⟩ := mapRecord_ok_iff.mp hrun
  obtain ⟨remarks, hremarks⟩ : ∃ remarks,
      mapping.mapM (memberRemarks checkRoom (some registry)) = .ok remarks := by
    refine Traverse.exists_mapM_ok fun member hm => ?_
    obtain ⟨s, e, t, he⟩ := exists_evaluation hp member hm
    exact exists_memberRemarks hroom hcheck he
  exact ⟨_, by rw [checkMapping, hremarks]; rfl⟩

/-- The check of a mapping warns of the members that the run leaves out for their name, and of no
others, exactly if the two agree on every name in it. -/
theorem unknownTargets_eq_nameTargets_iff {checkRoom : Nat} {mapped : Mapped}
    (hroom : room ≤ checkRoom + 1) (hcheck : 1 < checkRoom)
    (hrun : (mapRecord room registry mapping record s).result = .ok mapped)
    (hkeys : (Keyed.keys mapping).Nodup) :
    ∃ verdict, checkMapping checkRoom (some registry) (.obj mapping) = .ok verdict ∧
      (mapped.unknownTargets = verdict.nameTargets ↔
        ∀ member ∈ mapping, ∀ name ∈ calledName? member.2, ¬ registry.Disputed name) := by
  obtain ⟨verdict, hverdict⟩ := exists_verdict hroom hcheck hrun
  refine ⟨verdict, hverdict, ?_⟩
  rw [unknownTargets_eq hrun, nameTargets_eq hverdict, keys_filter_eq_iff hkeys]
  simp only [isUnfound_eq_isMarked_iff]

/-- Names of every kind are judged alike where nothing stands under the empty text. -/
theorem unknownTargets_eq_nameTargets_kinds :
    let registry : Registry :=
      .ofList [("f", .function fun _ args s => (.value args.head?, s))]
    let call (name : Value) := Value.obj [("$transform", name), ("$path", .str "p")]
    let mapping : Members := [("a", call (.str "f")), ("b", call (.str [])), ("c", call .null),
      ("d", call (.str "g")), ("e", .obj [("$literal", call (.str "g"))])]
    let (record, s) := load (.obj [("p", .int 1)]) {}
    ∃ mapped verdict, (mapRecord 100 registry mapping record s).result = .ok mapped ∧
      checkMapping 100 (some registry) (.obj mapping) = .ok verdict ∧
      (Keyed.keys mapping).Nodup ∧ mapped.unknownTargets = ["b", "c", "d"] ∧
      mapped.unknownTargets = verdict.nameTargets := by
  intro registry call mapping
  let r := load (.obj [("p", .int 1)]) {}
  have hkeys : (Keyed.keys mapping).Nodup := by decide
  have hagree : ∀ member ∈ mapping, ∀ name ∈ calledName? member.2, ¬ registry.Disputed name := by
    decide
  have hreturns : (mapRecord 100 registry mapping r.1 r.2).result.isOk = true := by decide +kernel
  obtain ⟨mapped, hrun⟩ := Traverse.exists_ok_of_isOk hreturns
  have htargets : mapped.unknownTargets = ["b", "c", "d"] :=
    (unknownTargets_eq hrun).trans (by decide)
  obtain ⟨verdict, hverdict, hiff⟩ :=
    unknownTargets_eq_nameTargets_iff (show 100 ≤ 100 + 1 by decide) (by decide) hrun hkeys
  exact ⟨mapped, verdict, hrun, hverdict, hkeys, htargets, hiff.mpr hagree⟩

/-- A transform under the empty text runs, though the check says that its member is skipped. -/
theorem nameTargets_emptyName :
    let registry : Registry := .ofList [([], .function fun _ args s => (.value args.head?, s))]
    let mapping : Members := [("t", .obj [("$transform", .str []), ("$path", .str "p")])]
    let (record, s) := load (.obj [("p", .int 1)]) {}
    let o := mapRecord 100 registry mapping record s
    ∃ mapped verdict, o.result = .ok mapped ∧
      checkMapping 100 (some registry) (.obj mapping) = .ok verdict ∧
      o.store.members? mapped.output = some [(("t" : Text), Cell.scalar (.int 1))] ∧
      mapped.unknownTargets = [] ∧ verdict.nameTargets = ["t"] := by
  intro registry mapping
  let r := load (.obj [("p", .int 1)]) {}
  let o := mapRecord 100 registry mapping r.1 r.2
  let checked := checkMapping 100 (some registry) (.obj mapping)
  have hreturns : o.result.isOk = true ∧ checked.isOk = true := by decide +kernel
  have houtput : (o.result.toOption.bind fun mapped => o.store.members? mapped.output) =
      some [(("t" : Text), Cell.scalar (.int 1))] := by decide +kernel
  have htargets : o.result.toOption.map Mapped.unknownTargets = some [] ∧
      checked.toOption.map Verdict.nameTargets = some [("t" : Text)] := by decide +kernel
  obtain ⟨mapped, hrun⟩ := Traverse.exists_ok_of_isOk hreturns.1
  obtain ⟨verdict, hverdict⟩ := Traverse.exists_ok_of_isOk hreturns.2
  rw [hrun] at houtput htargets
  rw [hverdict] at htargets
  exact ⟨mapped, verdict, hrun, hverdict, houtput, Option.some.inj htargets.1,
    Option.some.inj htargets.2⟩

end Reshape

import Mathlib.Data.List.Nodup
import Reshape.Mapping.Check
import Reshape.Proofs.Traverse

/-!
# Directives among arguments

The arguments of a directive are no directives: an object that calls a transform is passed as it
stands, and the check of a mapping warns of it. The check looks at the arguments that are `Listed`
under `$args`. Of those that are no literals as well, its verdict warns of the ones that call a
transform and are passed as they stand, and of no others (`nestedTransform_mem_warnings_iff`). An
object under `$path` is passed without a warning (`nestedTransform_unmarked`).
-/

namespace Reshape

/-- An argument that a directive lists under `$args`, with its position. A value there that is no
list is the only argument. -/
inductive Directive.Listed (ms : Members) : Nat → Value → Prop
  | element {args : List Value} {position : Nat} {arg : Value}
      (given : Keyed.get? ms Keyword.args = some (.list args))
      (here : args[position]? = some arg) : Listed ms position arg
  | alone {arg : Value} (given : Keyed.get? ms Keyword.args = some arg)
      (single : ∀ args, arg ≠ .list args) : Listed ms 0 arg

/-- The value is an object with a member of this key. -/
def Value.Carries (v : Value) (key : Text) : Prop :=
  ∃ ms, v = .obj ms ∧ key ∈ Keyed.keys ms

instance (v : Value) (key : Text) : Decidable (v.Carries key) :=
  decidable_of_iff ((Keyed.get? v.members key).isSome = true) <| by
    cases v <;> simp [Value.Carries, Value.members, Keyed.mem_keys_iff, Keyed.get?]

/-- The directive with these members passes the value itself as its argument at a position. -/
def Directive.Passes (ms : Members) (position : Nat) (arg : Value) : Prop :=
  ∃ d : Directive, Entry.ofValue (.obj ms) = .directive d ∧
    d.args[position]? = some (.literal arg)

variable {ms mapping : Members} {position : Nat} {arg : Value} {target : Text}
  {room : Nat} {registry : Option Registry} {verdict : Verdict}

/-! ### Arguments -/

theorem isDirective_iff {v : Value} : isDirective v = true ↔ v.Carries Keyword.transform := by
  cases v <;> simp [isDirective, Value.Carries, Keyed.mem_keys_iff]

namespace Directive

theorem Listed.getElem?_argumentValues (h : Listed ms position arg) :
    (argumentValues ms)[position]? = some arg := by
  cases h with
  | element given here =>
    rw [argumentValues, given]
    exact here
  | alone given single =>
    rw [argumentValues, given]
    cases arg with
    | list args => exact absurd rfl (single args)
    | _ => rfl

theorem Listed.unique {other : Value} (h : Listed ms position arg)
    (h' : Listed ms position other) : arg = other :=
  Option.some.inj (h.getElem?_argumentValues.symm.trans h'.getElem?_argumentValues)

theorem listed_of_getElem? {given : Value} (hgiven : Keyed.get? ms Keyword.args = some given)
    (h : (argumentValues ms)[position]? = some arg) : Listed ms position arg := by
  cases given with
  | list args =>
    rw [argumentValues, hgiven] at h
    exact .element hgiven h
  | _ =>
    rw [argumentValues, hgiven] at h
    obtain ⟨rfl, rfl⟩ : position = 0 ∧ arg = _ := by
      simpa [List.getElem?_singleton, eq_comm] using h
    exact .alone hgiven nofun

/-- An object that is no literal is passed as it stands, whatever else is in it. -/
theorem Listed.passes {name : Value} (hname : Keyed.get? ms Keyword.transform = some name)
    (h : Listed ms position arg) (hobj : arg.Carries Keyword.transform)
    (hliteral : ¬ arg.Carries Keyword.literal) : Passes ms position arg := by
  obtain ⟨inner, rfl, -⟩ := hobj
  have hnone : Keyed.get? inner Keyword.literal = none := by
    rw [← Option.not_isSome_iff_eq_none, ← Keyed.mem_keys_iff]
    exact fun hmem => hliteral ⟨inner, rfl, hmem⟩
  have hsource : Source.ofValue (.obj inner) = .literal (.obj inner) := by
    rw [Source.ofValue, hnone]
  refine ⟨_, by rw [Entry.ofValue, ofMembers?, hname]; rfl, ?_⟩
  rw [List.getElem?_map, h.getElem?_argumentValues, Option.map_some, hsource]

end Directive

/-! ### Warnings -/

theorem nestedTransform_mem_argumentCautions_iff :
    .nestedTransform position ∈ argumentCautions ms ↔
      ∃ arg, Directive.Listed ms position arg ∧ arg.Carries Keyword.transform := by
  rw [argumentCautions]
  cases hgiven : Keyed.get? ms Keyword.args with
  | none =>
    have hno : ∀ arg, ¬ Directive.Listed ms position arg := by
      rintro arg (⟨given, -⟩ | ⟨given, -⟩) <;> cases hgiven.symm.trans given
    simp [hno]
  | some given =>
    dsimp only
    rw [List.mem_filterMap]
    constructor
    · rintro ⟨⟨arg, i⟩, hmem, hcaution⟩
      split at hcaution <;> cases hcaution
      next hdirective =>
      exact ⟨arg, Directive.listed_of_getElem? hgiven (List.mem_zipIdx_iff_getElem?.mp hmem),
        isDirective_iff.mp hdirective⟩
    · rintro ⟨arg, hlisted, hcarries⟩
      refine ⟨(arg, position), List.mem_zipIdx_iff_getElem?.mpr hlisted.getElem?_argumentValues, ?_⟩
      exact if_pos (isDirective_iff.mpr hcarries)

/-- Where keys differ, what is remarked on a target is what the check makes of its value. -/
theorem mem_warnings_iff {caution : Caution} {v : Value} (hkeys : (Keyed.keys mapping).Nodup)
    (hmem : (target, v) ∈ mapping)
    (hcheck : checkMapping room registry (.obj mapping) = .ok verdict) :
    ∃ cautions, valueCautions (room - 1) registry v = .ok cautions ∧
      ({ target, caution } ∈ verdict.warnings ↔ caution ∈ targetCautions target ++ cautions) := by
  obtain ⟨remarks, hremarks, hall⟩ := Traverse.bind_eq_ok_iff.mp hcheck
  cases hall
  obtain ⟨own, -, hown⟩ := Traverse.exists_of_mem_of_mapM_eq_ok hremarks hmem
  obtain ⟨cautions, hcautions, hmade⟩ := Traverse.bind_eq_ok_iff.mp hown
  cases hmade
  refine ⟨cautions, hcautions, ?_⟩
  rw [List.mem_flatten]
  constructor
  · rintro ⟨listed, hlisted, hremark⟩
    obtain ⟨member, hm, hother⟩ := (Traverse.mem_iff_of_mapM_eq_ok hremarks).mp hlisted
    obtain ⟨others, hothers, hmade⟩ := Traverse.bind_eq_ok_iff.mp hother
    cases hmade
    obtain ⟨c, hc, heq⟩ := List.mem_map.mp hremark
    cases heq
    have hvalue : member.2 = v := congrArg Prod.snd (List.inj_on_of_nodup_map hkeys hm hmem rfl)
    rw [hvalue] at hothers
    cases hcautions.symm.trans hothers
    exact hc
  · intro hc
    exact ⟨_, (Traverse.mem_iff_of_mapM_eq_ok hremarks).mpr ⟨(target, v), hmem, hown⟩,
      List.mem_map.mpr ⟨caution, hc, rfl⟩⟩

theorem nestedTransform_not_mem_targetCautions (target : Text) (position : Nat) :
    .nestedTransform position ∉ targetCautions target := by
  unfold targetCautions
  split <;> split <;> simp

/-- Of a directive with a usable name, the check warns of the listed arguments that call a
transform, and of no others. -/
theorem nestedTransform_mem_valueCautions_iff {name : Text} {cautions : List Caution}
    (hname : Keyed.get? ms Keyword.transform = some (.str name)) (hne : name ≠ [])
    (h : valueCautions room registry (.obj ms) = .ok cautions) :
    .nestedTransform position ∈ cautions ↔
      ∃ arg, Directive.Listed ms position arg ∧ arg.Carries Keyword.transform := by
  have husable : usableName? (.str name) = some name := if_neg hne
  have hsource : .nestedTransform position ∉ (argumentSourceCaution? name ms).toList := by
    unfold argumentSourceCaution?
    split <;> simp
  rw [valueCautions, directiveCautions, hname] at h
  obtain ⟨caution?, hcaution, hall⟩ := Traverse.bind_eq_ok_iff.mp h
  cases hall
  have hnameCaution : .nestedTransform position ∉ caution?.toList := by
    rw [nameCaution?, husable] at hcaution
    cases hcaution
    split <;> simp
  rw [namedCautions, husable, ← nestedTransform_mem_argumentCautions_iff]
  simp [hnameCaution, hsource]

/-- The verdict of a check warns of a listed argument exactly if it calls a transform and is passed
as it stands. Nothing is said of an argument that is a literal as well. Of an argument that is not
listed, the check never warns. -/
theorem nestedTransform_mem_warnings_iff (registry : Option Registry) {name : Text}
    (hkeys : (Keyed.keys mapping).Nodup) (hmem : (target, .obj ms) ∈ mapping)
    (hname : Keyed.get? ms Keyword.transform = some (.str name)) (hne : name ≠ [])
    (hcheck : checkMapping room registry (.obj mapping) = .ok verdict) :
    (∀ position arg, Directive.Listed ms position arg →
      ¬ (arg.Carries Keyword.transform ∧ arg.Carries Keyword.literal) →
      ({ target, caution := .nestedTransform position } ∈ verdict.warnings ↔
        arg.Carries Keyword.transform ∧ Directive.Passes ms position arg)) ∧
    (Keyed.get? ms Keyword.args = none → ∀ position,
      { target, caution := .nestedTransform position } ∉ verdict.warnings) := by
  have hwarned : ∀ position, { target, caution := .nestedTransform position } ∈ verdict.warnings ↔
      ∃ arg, Directive.Listed ms position arg ∧ arg.Carries Keyword.transform := fun position => by
    obtain ⟨cautions, hcautions, hiff⟩ := mem_warnings_iff hkeys hmem hcheck
    rw [hiff, List.mem_append, nestedTransform_mem_valueCautions_iff hname hne hcautions]
    exact or_iff_right (nestedTransform_not_mem_targetCautions target position)
  refine ⟨fun position arg hlisted hboth => ?_, fun hnone position => ?_⟩
  · rw [hwarned]
    constructor
    · rintro ⟨other, hother, hcarries⟩
      obtain rfl : other = arg := hother.unique hlisted
      exact ⟨hcarries, hlisted.passes hname hcarries fun hliteral => hboth ⟨hcarries, hliteral⟩⟩
    · rintro ⟨hcarries, -⟩
      exact ⟨arg, hlisted, hcarries⟩
  · rw [hwarned]
    rintro ⟨arg, ⟨given, -⟩ | ⟨given, -⟩, -⟩ <;> cases hnone.symm.trans given

/-- The second of three listed arguments calls a transform, beside a member with the same one under
`$path`. -/
theorem nestedTransform_mem_warnings_second :
    let call : Value := .obj [("$transform", .str "g"), ("$path", .str "p")]
    let ms : Members := [("$transform", .str "f"), ("$args", .list [.str "x", call, .obj []])]
    let mapping : Members :=
      [("t", .obj ms), ("u", .obj [("$transform", .str "f"), ("$path", call)])]
    ∃ verdict, checkMapping 100 none (.obj mapping) = .ok verdict ∧
      (Keyed.keys mapping).Nodup ∧ (("t" : Text), Value.obj ms) ∈ mapping ∧
      Keyed.get? ms Keyword.transform = some (.str "f") ∧ ("f" : Text) ≠ [] ∧
      Directive.Listed ms 1 call ∧
      ¬ (call.Carries Keyword.transform ∧ call.Carries Keyword.literal) ∧
      { target := "t", caution := .nestedTransform 1 } ∈ verdict.warnings := by
  intro call ms mapping
  have hkeys : (Keyed.keys mapping).Nodup := by decide
  have hmem : (("t" : Text), Value.obj ms) ∈ mapping := List.mem_cons_self
  have hname : Keyed.get? ms Keyword.transform = some (.str "f") := rfl
  have hne : ("f" : Text) ≠ [] := by decide
  have hlisted : Directive.Listed ms 1 call := .element rfl rfl
  have hcarries : call.Carries Keyword.transform := by decide
  have hboth : ¬ (call.Carries Keyword.transform ∧ call.Carries Keyword.literal) := by decide
  obtain ⟨verdict, hcheck⟩ : ∃ verdict, checkMapping 100 none (.obj mapping) = .ok verdict :=
    ⟨_, rfl⟩
  have hwarned :=
    (nestedTransform_mem_warnings_iff none hkeys hmem hname hne hcheck).1 1 call hlisted hboth
  exact ⟨verdict, hcheck, hkeys, hmem, hname, hne, hlisted, hboth,
    hwarned.mpr ⟨hcarries, _, rfl, rfl⟩⟩

/-- A directive under `$path` is passed as it stands too, but the check does not warn of it. -/
theorem nestedTransform_unmarked :
    let call : Value := .obj [("$transform", .str "g")]
    let ms : Members := [("$transform", .str "f"), ("$path", call)]
    Keyed.get? ms Keyword.args = none ∧ Keyed.get? ms Keyword.path = some call ∧
      call.Carries Keyword.transform ∧ Directive.Passes ms 0 call ∧
      checkMapping 100 none (.obj [("t", .obj ms)]) = .ok {} :=
  ⟨rfl, rfl, by decide, ⟨_, rfl, rfl⟩, rfl⟩

end Reshape

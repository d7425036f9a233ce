import Mathlib.Data.List.Forall2
import Reshape.Proofs.Mapping.Run

/-!
# The calls of a mapping

A call of a transform may do more than come to an answer. `evaluateMemberIn` evaluates a member
where calls have effects, in any monad, and is one call, if the member is a directive whose
transform is there, and else none. `note` is the effect of noting down what is called: a run that is
noted down comes to what the run comes to, and has one call for each such directive, in their order
(`noted_mapRecordIn`), with arguments told in the store that the members before have left. The
arguments of a call stand where they are specified, with `null` for what is not there
(`evaluateMemberIn_directive`).
-/

namespace Reshape

/-- Steps that can be stopped and have effects besides those on the store. -/
abbrev RunT (m : Type → Type) := ExceptT Stop (StateT Store m)

/-- How what is registered is called, with what effects. -/
abbrev Caller (m : Type → Type) := Registered → Nat → List Cell → StateT Store m Answer

/-- What a directive comes to by the answer of its transform. -/
def Directive.conclude (room : Nat) (target : Text) (d : Directive) : Answer → Run Evaluation
  | .value value => return { target, value }
  | .failed e => d.warn target (d.failedMessage room e)
  | .aborted => throw .aborted

section

variable {m : Type → Type} [Monad m]

/-- A step without other effects. -/
def RunT.lift {α : Type} (x : Run α) : RunT m α :=
  ExceptT.mk fun s => pure (x.within s)

variable (call : Caller m) (room : Nat) (registry : Registry) (record : Cell)

def Directive.evaluateIn (target : Text) (d : Directive) : RunT m Evaluation :=
  match registry.lookup d.name with
  | none => RunT.lift (d.warn target (d.unknownMessage room))
  | some found => do
    let args ← RunT.lift (d.arguments (room - 3) record)
    let answer ← ExceptT.lift (call found room args)
    RunT.lift (d.conclude room target answer)

/-- Evaluates one member of a mapping. -/
def evaluateMemberIn (member : Text × Value) : RunT m Evaluation :=
  match Entry.ofValue member.2 with
  | .source s => RunT.lift do return { target := member.1, value := ← s.produce room record }
  | .directive d => d.evaluateIn call (room - 1) registry record member.1

/-- Goes through members of a mapping, up to the first that stops the record. -/
def Progress.runIn (p : Progress) : Members → m (Option Stop × Progress)
  | [] => return (none, p)
  | member :: rest => do
    match ← (evaluateMemberIn call room registry record member).run.run p.canvas.store with
    | (.error stop, s) => return (some stop, { p with canvas := { p.canvas with store := s } })
    | (.ok e, s) => runIn (p.add s e) rest

end

/-! ### Notes -/

/-- A call with its arguments. -/
structure Call where
  found : Registered
  args : List Cell

/-- Notes a call down, behind those before it, and has no other effect. -/
def note : Caller (StateM (List Call)) := fun found room args s notes =>
  (found.call room args s, notes ++ [⟨found, args⟩])

/-- The call that a directive makes in a store, if its transform is there and its arguments can be
told. -/
def Directive.callOf? (room : Nat) (registry : Registry) (record : Cell) (s : Store)
    (d : Directive) :
    Option Call :=
  match registry.lookup d.name, ((d.arguments (room - 3) record).within s).1 with
  | some found, .ok args => some ⟨found, args⟩
  | _, _ => none

def callOf? (room : Nat) (registry : Registry) (record : Cell) (s : Store)
    (member : Text × Value) : Option Call :=
  match Entry.ofValue member.2 with
  | .source _ => none
  | .directive d => d.callOf? (room - 1) registry record s

/-- The calls that members make, each in the store that those before it have left. -/
def Progress.calls (room : Nat) (registry : Registry) (record : Cell) (p : Progress) :
    Members → List Call
  | [] => []
  | member :: rest =>
    (callOf? room registry record p.canvas.store member).toList ++
      match (evaluateMember room registry record member).within p.canvas.store with
      | (.error _, _) => []
      | (.ok e, s) => calls room registry record (p.add s e) rest

variable {room : Nat} {registry : Registry} {record : Cell} {s : Store} {mapping : Members}

theorem Directive.evaluate_within (d : Directive) (target : Text) (s : Store) :
    (d.evaluate room registry record target).within s =
      match registry.lookup d.name with
      | none => (d.warn target (d.unknownMessage room)).within s
      | some found =>
        match (d.arguments (room - 3) record).within s with
        | (.error stop, u) => (.error stop, u)
        | (.ok args, u) =>
          let (answer, v) := found.call room args u
          (d.conclude room target answer).within v := by
  cases hl : registry.lookup d.name with
  | none => exact evaluate_unknown hl
  | some found =>
    rw [evaluate_found hl]
    rcases (d.arguments (room - 3) record).within s with ⟨_ | args, u⟩
    · rfl
    · dsimp only
      generalize found.call room args u = r
      obtain ⟨_ | _ | _, t⟩ := r <;> rfl

/-- Where its arguments can be told, a directive whose transform is there is one call of it. -/
theorem Directive.run_evaluateIn {m : Type → Type} [Monad m] [LawfulMonad m] (call : Caller m)
    {d : Directive} {found : Registered} {args : List Cell} {u : Store} (target : Text)
    (hlookup : registry.lookup d.name = some found)
    (hargs : (d.arguments (room - 3) record).within s = (.ok args, u)) :
    (d.evaluateIn call room registry record target).run.run s =
      (fun (answer, t) => (d.conclude room target answer).within t) <$>
        (call found room args).run u := by
  have hlift : (RunT.lift (d.arguments (room - 3) record) : RunT m (List Cell)).run.run s =
      pure (.ok args, u) := by
    rw [← hargs]
    rfl
  unfold evaluateIn
  rw [hlookup]
  dsimp only
  rw [ExceptT.run_bind, StateT.run_bind, hlift, pure_bind]
  dsimp only
  rw [ExceptT.run_bind, StateT.run_bind, ExceptT.run_lift, StateT.run_map, bind_map_left,
    map_eq_pure_bind]
  rfl

theorem Directive.noted_evaluateIn (d : Directive) (target : Text) (s : Store)
    (notes : List Call) :
    ((d.evaluateIn note room registry record target).run.run s).run notes =
      ((d.evaluate room registry record target).within s,
        notes ++ (d.callOf? room registry record s).toList) := by
  rw [evaluate_within, callOf?]
  cases hl : registry.lookup d.name with
  | none =>
    unfold evaluateIn
    rw [hl, Option.toList_none, List.append_nil]
    rfl
  | some found =>
    cases hargs : (d.arguments (room - 3) record).within s with
    | mk result u =>
      cases result with
      | ok args =>
        rw [run_evaluateIn note target hl hargs]
        rfl
      | error stop =>
        have hlift : (RunT.lift (d.arguments (room - 3) record) :
            RunT (StateM (List Call)) (List Cell)).run.run s = pure (.error stop, u) := by
          rw [← hargs]
          rfl
        unfold evaluateIn
        rw [hl]
        dsimp only
        rw [ExceptT.run_bind, StateT.run_bind, hlift, pure_bind, Option.toList_none,
          List.append_nil]
        rfl

theorem noted_evaluateMemberIn (member : Text × Value) (s : Store) (notes : List Call) :
    ((evaluateMemberIn note room registry record member).run.run s).run notes =
      ((evaluateMember room registry record member).within s,
        notes ++ (callOf? room registry record s member).toList) := by
  unfold evaluateMemberIn callOf?
  cases hm : Entry.ofValue member.2 with
  | source source =>
    rw [Option.toList_none, List.append_nil, evaluateMember, hm]
    rfl
  | directive d =>
    rw [evaluateMember_directive hm]
    exact d.noted_evaluateIn member.1 s notes

/-- A run that is noted down comes to what the run comes to, and its notes are the calls of the
members of the mapping. -/
theorem noted_runIn (p : Progress) (mapping : Members) (notes : List Call) :
    (p.runIn note room registry record mapping).run notes =
      (p.run room registry record mapping, notes ++ p.calls room registry record mapping) := by
  induction mapping generalizing p notes with
  | nil =>
    rw [Progress.calls, List.append_nil]
    rfl
  | cons member rest ih =>
    rw [Progress.runIn, Progress.run, Progress.calls, StateT.run_bind, noted_evaluateMemberIn]
    rcases (evaluateMember room registry record member).within p.canvas.store with ⟨_ | e, t⟩
    · rw [List.append_nil]
      rfl
    · rw [← List.append_assoc]
      exact ih (p.add t e) _

/-! ### Arguments -/

/-- What a directive with these members specifies its arguments by: the elements of `$args`, or what
is there if it is no list, and without `$args` what is under `$path`, if anything is. -/
inductive Directive.Specifies (ms : Members) : List Value → Prop
  | listed {specs : List Value} (given : Keyed.get? ms Keyword.args = some (.list specs)) :
      Specifies ms specs
  | alone {spec : Value} (given : Keyed.get? ms Keyword.args = some spec)
      (single : ∀ specs, spec ≠ .list specs) : Specifies ms [spec]
  | path {spec : Value} (unlisted : Keyed.get? ms Keyword.args = none)
      (given : Keyed.get? ms Keyword.path = some spec) : Specifies ms [spec]
  | nothing (unlisted : Keyed.get? ms Keyword.args = none)
      (pathless : Keyed.get? ms Keyword.path = none) : Specifies ms []

/-- Specifications are resolved one after the other, where so many calls fit: each stands for its
own argument, and what stands for nothing for `null`. -/
inductive Directive.Resolves (room : Nat) (record : Cell) :
    Store → List Value → List Cell → Store → Prop
  | nil (s : Store) : Resolves room record s [] [] s
  | cons {s t u : Store} {spec : Value} {specs : List Value} {found : Option Cell}
      {args : List Cell}
      (first : ((Source.ofValue spec).resolve room record).within s = (.ok found, t))
      (rest : Resolves room record t specs args u) :
      Resolves room record s (spec :: specs) (found.getD (.scalar .null) :: args) u

theorem Directive.specifies_iff {ms : Members} {specs : List Value} :
    Specifies ms specs ↔ specs = argumentValues ms := by
  constructor
  · rintro (given | ⟨given, single⟩ | ⟨unlisted, given⟩ | ⟨unlisted, pathless⟩)
    · rw [argumentValues, given]
    · next spec =>
      rw [argumentValues, given]
      cases spec with
      | list specs => exact absurd rfl (single specs)
      | _ => rfl
    · rw [argumentValues, unlisted, given]
    · rw [argumentValues, unlisted, pathless]
  · rintro rfl
    unfold argumentValues
    split
    · next given => exact .listed given
    · next spec hno given => exact .alone given hno
    · next unlisted given => exact .path unlisted given
    · next unlisted pathless => exact .nothing unlisted pathless

/-- Each specification has its argument at its own place. -/
theorem Directive.arguments_ok_iff (name : Value) {specs : List Value} {args : List Cell}
    {u : Store} :
    (arguments room record { name, args := specs.map Source.ofValue }).within s = (.ok args, u) ↔
      Resolves room record s specs args u := by
  unfold arguments
  induction specs generalizing s args with
  | nil =>
    constructor
    · intro h
      cases h
      exact .nil _
    · rintro ⟨⟩
      rfl
  | cons spec specs ih =>
    dsimp only at ih ⊢
    rw [List.map_cons, List.mapM_cons]
    simp only [Run.within_bind_ok_iff, Run.within_pure, Prod.mk.injEq, Except.ok.injEq]
    constructor
    · rintro ⟨_, t, ⟨found, _, hfirst, rfl, rfl⟩, rest, _, hrest, rfl, rfl⟩
      exact .cons hfirst (ih.mp hrest)
    · rintro ⟨⟩
      next t found rest hfirst hrest =>
      exact ⟨_, t, ⟨found, t, hfirst, rfl, rfl⟩, rest, u, ih.mpr hrest, rfl, rfl⟩

/-- There are as many arguments as specifications. -/
theorem Directive.Resolves.length_eq {specs : List Value} {args : List Cell} {u : Store}
    (h : Resolves room record s specs args u) : args.length = specs.length := by
  induction h with
  | nil s => rfl
  | cons _ _ ih => rw [List.length_cons, List.length_cons, ih]

/-- Where its arguments can be told, a directive whose transform is there is one call of it,
whatever else calls do; and of a whole record these are the calls. -/
theorem evaluateMemberIn_directive {ms : Members} {name : Text} {f : Transform}
    (hname : Keyed.get? ms Keyword.transform = some (.str name))
    (hf : registry.get? name = some (.function f)) (target : Text) (room : Nat) (record : Cell) :
    (∃ specs, Directive.Specifies ms specs ∧
      ∀ s args u, Directive.Resolves (room - 4) record s specs args u →
        args.length = specs.length ∧
        callOf? room registry record s (target, .obj ms) = some ⟨.function f, args⟩ ∧
        ∃ d, Entry.ofValue (.obj ms) = .directive d ∧
          ∀ (m : Type → Type) [Monad m] [LawfulMonad m] (call : Caller m),
            (evaluateMemberIn call room registry record (target, .obj ms)).run.run s =
              (fun (answer, t) => (d.conclude (room - 1) target answer).within t) <$>
                (call (.function f) (room - 1) args).run u) ∧
    ∀ (mapping : Members) (s : Store),
      ((Progress.ofStore s).runIn note room registry record mapping).run [] =
        ((Progress.ofStore s).run room registry record mapping,
          (Progress.ofStore s).calls room registry record mapping) := by
  have hlookup : registry.lookup (.str name) = some (.function f) := by
    rw [Registry.lookup, hf]
    rfl
  have hdirective : Entry.ofValue (.obj ms) = .directive
      { name := .str name, args := (Directive.argumentValues ms).map Source.ofValue } := by
    rw [Entry.ofValue, Directive.ofMembers?, hname]
    rfl
  refine ⟨⟨_, Directive.specifies_iff.mpr rfl, fun s args u hresolves => ?_⟩, fun mapping s => ?_⟩
  · have hargs := (Directive.arguments_ok_iff (.str name)).mpr hresolves
    refine ⟨hresolves.length_eq, ?_, _, hdirective, fun m _ _ call => ?_⟩
    · rw [callOf?, hdirective]
      dsimp only
      rw [Directive.callOf?, hlookup, Nat.sub_sub, hargs]
    · rw [evaluateMemberIn, hdirective]
      exact Directive.run_evaluateIn call target hlookup (by rw [Nat.sub_sub]; exact hargs)
  · rw [noted_runIn, List.nil_append]

/-- A specification left empty and one of data that is not there, before others; and a path that
finds what an entry before has written into the record. -/
theorem evaluateMemberIn_directive_positions :
    let same : Transform := fun _ args s => (.value args.head?, s)
    let f : Transform := fun _ args s => (.value (some (.ref s.size)), s.push (.list args))
    let registry := Registry.ofList [("same", .function same), ("f", .function f)]
    let specs : List Value := [.null, .str "p", .str "=x", .obj [("$literal", .int 1)], .str "x.z"]
    let ms : Members := [("$transform", .str "f"), ("$path", .str "q"), ("$args", .list specs)]
    let mapping : Members := [("a", .obj [("$transform", .str "same"), ("$path", .str "x")]),
      ("a.z", .str "=new"), ("t", .obj ms)]
    let args : List Cell := [.scalar .null, .scalar .null, .scalar (.str "x"), .scalar (.int 1)]
    let r := load (.obj [("x", .obj [("z", .int 7)])]) {}
    Keyed.get? ms Keyword.transform = some (.str "f") ∧
    registry.get? "f" = some (.function f) ∧
    Directive.Resolves 96 r.1 r.2 specs (args ++ [.scalar (.int 7)]) r.2 ∧
    callOf? 100 registry r.1 r.2 ("t", .obj ms) =
      some ⟨.function f, args ++ [.scalar (.int 7)]⟩ ∧
    (((Progress.ofStore r.2).runIn note 100 registry r.1 mapping).run []).2.map Call.args =
      [[.ref 0], args ++ [.scalar (.str "new")]] := by
  intro same f registry specs ms mapping args r
  have hname : Keyed.get? ms Keyword.transform = some (.str "f") := rfl
  have hf : registry.get? "f" = some (.function f) := rfl
  have hargs :
    (Directive.arguments 96 r.1 { name := .null, args := specs.map Source.ofValue }).within
      r.2 = (.ok (args ++ [.scalar (.int 7)]), r.2) := by decide +kernel
  have hresolves := (Directive.arguments_ok_iff _).mp hargs
  obtain ⟨⟨specs', hspecs, hcall⟩, hrun⟩ := evaluateMemberIn_directive hname hf "t" 100 r.1
  obtain rfl : specs' = specs := Directive.specifies_iff.mp hspecs
  refine ⟨hname, hf, hresolves, (hcall r.2 _ _ hresolves).2.1, ?_⟩
  have hcalls : ((Progress.ofStore r.2).calls 100 registry r.1 mapping).map Call.args =
      [[.ref 0], args ++ [.scalar (.str "new")]] := by decide +kernel
  exact (congrArg (fun noted => noted.2.map Call.args) (hrun mapping r.2)).trans hcalls

end Reshape

import Reshape.Proofs.Mapping.Batch
import Reshape.Proofs.Mapping.Run
import Reshape.Proofs.Path.Blocked
import Reshape.Proofs.Store.Copying

/-!
# What stops a mapping

An entry is stopped for one of a few reasons (`Entry.Halts`): a path that cannot be read, a value
that nests too deep to be copied, a message that cannot be made, or a transform that is aborted. A
mapping runs to its end exactly if none of its entries is stopped when its turn comes
(`mapInput_ok_iff`). A transform that is unknown or fails, a target and the shape of a record stop
nothing by themselves.
-/

namespace Reshape

/-- There is no room to copy what a cell leads to. -/
def Store.TooDeepFor (s : Store) (room : Nat) (c : Cell) : Prop :=
  ∃ a, c = .ref a ∧ (copyWithin room (.ref a) { store := s }).1 = none

/-- What stops an argument. -/
inductive Source.Halts (room : Nat) (record : Cell) (s : Store) : Source → Prop
  | literal {v : Value} (deep : v.TooDeepFor room) : Halts room record s (.literal v)
  | path {text : Text} (stops : s.look.Stops record text) : Halts room record s (.path text)

/-- One of the arguments of a call is stopped, in the store that those before it have left. -/
inductive ArgumentHalts (room : Nat) (record : Cell) : Store → List Source → Prop
  | here {s : Store} {source : Source} {rest : List Source} (halts : source.Halts room record s) :
      ArgumentHalts room record s (source :: rest)
  | later {s t : Store} {source : Source} {rest : List Source} {found : Option Cell}
      (first : (source.resolve room record).within s = (.ok found, t))
      (halts : ArgumentHalts room record t rest) : ArgumentHalts room record s (source :: rest)

/-- What stops an entry where so many calls fit. -/
inductive Entry.Halts (room : Nat) (registry : Registry) (record : Cell) (s : Store) : Entry → Prop
  | literal {v : Value} (deep : v.TooDeepFor (room - 2)) :
      Halts room registry record s (.source (.literal v))
  | unread {text : Text} (stops : s.look.Stops record text) :
      Halts room registry record s (.source (.path text))
  | uncopied {text : Text} {c : Cell} {t : Store}
      (read : (Run.read record text).within s = (.ok (some c), t)) (deep : t.TooDeepFor room c) :
      Halts room registry record s (.source (.path text))
  | unnamed {d : Directive} {e : TextError} (unknown : registry.lookup d.name = none)
      (unshown : d.unknownMessage (room - 1) = .error e) :
      Halts room registry record s (.directive d)
  | argument {d : Directive} (known : registry.lookup d.name ≠ none)
      (halts : ArgumentHalts (room - 1 - 3) record s d.args) :
      Halts room registry record s (.directive d)
  | unexplained {d : Directive} {err : TransformError} {e : TextError} {t : Store}
      (calls : d.Calls (room - 1) registry record s (.failed err) t)
      (unshown : d.failedMessage (room - 1) err = .error e) :
      Halts room registry record s (.directive d)
  | aborted {d : Directive} {t : Store} (calls : d.Calls (room - 1) registry record s .aborted t) :
      Halts room registry record s (.directive d)

section

variable {room : Nat} {registry : Registry} {record : Cell} {s : Store}

/-! ### One entry -/

theorem exists_load_error_iff {v : Value} :
    (∃ stop t, (Run.load room v).within s = (.error stop, t)) ↔ v.TooDeepFor room := by
  have hcontainer : ∀ {v : Value}, v.IsContainer →
      ((∃ stop t, (if room < v.roomToCopy then ((.error .tooDeep, s) : Except Stop Cell × Store)
          else (.ok (load v s).1, (load v s).2)) = (.error stop, t)) ↔ v.TooDeepFor room) := by
    intro v hv
    by_cases hroom : room < v.roomToCopy
    · simp [hroom, Value.TooDeepFor, hv]
    · simp [hroom, Value.TooDeepFor]
  cases v with
  | list xs => exact hcontainer (.inl ⟨xs, rfl⟩)
  | obj ms => exact hcontainer (.inr ⟨ms, rfl⟩)
  | _ =>
    refine ⟨fun ⟨stop, t, h⟩ => ?_, fun ⟨hcontainer, _⟩ => ?_⟩
    · cases h
    · rcases hcontainer with ⟨xs, h⟩ | ⟨ms, h⟩ <;> cases h

theorem exists_copy_error_iff {c : Cell} :
    (∃ stop t, (Run.copy room c).within s = (.error stop, t)) ↔ s.TooDeepFor room c := by
  cases c with
  | scalar x =>
    constructor
    · rintro ⟨stop, t, h⟩
      cases h
    · rintro ⟨a, h, -⟩
      cases h
  | ref a =>
    have hdeep : s.TooDeepFor room (.ref a) ↔
        (copyWithin room (.ref a) { store := s }).1 = none := by simp [Store.TooDeepFor]
    rw [hdeep]
    unfold Run.copy Run.within ExceptT.run StateT.run
    dsimp only
    generalize copyWithin room (.ref a) { store := s } = r
    obtain ⟨_ | d, p⟩ := r <;> simp

theorem exists_read_error_iff {text : Text} :
    (∃ stop t, (Run.read record text).within s = (.error stop, t)) ↔ s.look.Stops record text := by
  rw [← Look.exists_readText_error_iff rfl, Run.read_within]
  cases s.look.readText record text with
  | error limit => simp
  | ok found => rcases found with _ | _ | _ <;> simp

theorem Source.exists_resolve_error_iff {source : Source} :
    (∃ stop t, (source.resolve room record).within s = (.error stop, t)) ↔
      source.Halts room record s := by
  cases source with
  | skip =>
    constructor
    · rintro ⟨stop, t, h⟩
      cases h
    · rintro ⟨⟩
  | literal v =>
    have hload : (∃ stop t, ((Source.literal v).resolve room record).within s = (.error stop, t)) ↔
        v.TooDeepFor room := by
      rw [← exists_load_error_iff (s := s), Source.resolve]
      simp only [Run.within_bind_error_iff, Run.within_pure, Prod.mk.injEq, reduceCtorEq, false_and,
        and_false, exists_false, or_false]
    rw [hload]
    refine ⟨.literal, fun h => ?_⟩
    cases h with
    | literal deep => exact deep
  | path text =>
    rw [Source.resolve, exists_read_error_iff]
    refine ⟨.path, fun h => ?_⟩
    cases h with
    | path stops => exact stops

theorem Directive.exists_arguments_error_iff {d : Directive} :
    (∃ stop t, (d.arguments room record).within s = (.error stop, t)) ↔
      ArgumentHalts room record s d.args := by
  unfold arguments
  induction d.args generalizing s with
  | nil =>
    constructor
    · rintro ⟨stop, t, h⟩
      cases h
    · rintro ⟨⟩
  | cons source rest ih =>
    rw [List.mapM_cons]
    simp only [Run.within_bind_error_iff, Run.within_bind_ok_iff, Run.within_pure, Prod.mk.injEq,
      Except.ok.injEq, reduceCtorEq, false_and, and_false, exists_false, or_false]
    constructor
    · rintro ⟨stop, t, h | ⟨_, _, ⟨found, t', hfound, rfl, rfl⟩, hrest⟩⟩
      · exact .here (Source.exists_resolve_error_iff.mp ⟨stop, t, h⟩)
      · exact .later hfound (ih.mp ⟨stop, t, hrest⟩)
    · intro h
      cases h with
      | here halts =>
        obtain ⟨stop, t, h⟩ := Source.exists_resolve_error_iff.mpr halts
        exact ⟨stop, t, .inl h⟩
      | later first halts =>
        obtain ⟨stop, t, hrest⟩ := ih.mpr halts
        exact ⟨stop, t, .inr ⟨_, _, ⟨_, _, first, rfl, rfl⟩, hrest⟩⟩

theorem Source.exists_produce_error_iff {source : Source} :
    (∃ stop t, (source.produce room record).within s = (.error stop, t)) ↔
      (Entry.source source).Halts room registry record s := by
  cases source with
  | skip =>
    constructor
    · rintro ⟨stop, t, h⟩
      cases h
    · rintro ⟨⟩
  | literal v =>
    rw [Source.produce, Source.exists_resolve_error_iff]
    · refine ⟨fun h => ?_, fun h => ?_⟩
      · cases h with
        | literal deep => exact .literal deep
      · cases h with
        | literal deep => exact .literal deep
    · nofun
  | path text =>
    rw [Source.produce]
    constructor
    · rintro ⟨stop, t, h⟩
      rcases Run.within_bind_error_iff.mp h with h | ⟨found, t', hread, h⟩
      · exact .unread (exists_read_error_iff.mp ⟨stop, t, h⟩)
      · cases found with
        | none => cases h
        | some c =>
          rcases Run.within_bind_error_iff.mp h with h | ⟨d, t'', -, h⟩
          · exact .uncopied hread (exists_copy_error_iff.mp ⟨stop, t, h⟩)
          · cases h
    · intro h
      cases h with
      | unread stops =>
        obtain ⟨stop, t, h⟩ := exists_read_error_iff.mpr stops
        exact ⟨stop, t, Run.within_bind_error_iff.mpr (.inl h)⟩
      | uncopied read deep =>
        obtain ⟨stop, t, h⟩ := exists_copy_error_iff.mpr deep
        exact ⟨stop, t, Run.within_bind_error_iff.mpr
          (.inr ⟨_, _, read, Run.within_bind_error_iff.mpr (.inl h)⟩)⟩

/-- What stops a member of a mapping. -/
theorem exists_evaluateMember_error_iff {member : Text × Value} :
    (∃ stop t, (evaluateMember room registry record member).within s = (.error stop, t)) ↔
      (Entry.ofValue member.2).Halts room registry record s := by
  cases hm : Entry.ofValue member.2 with
  | source source =>
    rw [← Source.exists_produce_error_iff, evaluateMember_source hm]
    rcases (source.produce room record).within s with ⟨_ | _, _⟩ <;> simp
  | directive d =>
    rw [evaluateMember_directive hm]
    constructor
    · rintro ⟨stop, t, h⟩
      rcases Directive.evaluate_error_iff.mp h with ⟨hl, -, e, he, -⟩ | ⟨hl, hargs⟩ |
        ⟨err, e, hcalls, he, -⟩ | ⟨hcalls, -⟩
      · exact .unnamed hl he
      · exact .argument hl (Directive.exists_arguments_error_iff.mp ⟨stop, t, hargs⟩)
      · exact .unexplained hcalls he
      · exact .aborted hcalls
    · intro h
      cases h with
      | unnamed hl he => exact ⟨_, _, Directive.evaluate_error_iff.mpr (.inl ⟨hl, rfl, _, he, rfl⟩)⟩
      | argument hl halts =>
        obtain ⟨stop, t, hargs⟩ := Directive.exists_arguments_error_iff.mpr halts
        exact ⟨stop, t, Directive.evaluate_error_iff.mpr (.inr (.inl ⟨hl, hargs⟩))⟩
      | unexplained hcalls he =>
        exact ⟨_, _, Directive.evaluate_error_iff.mpr (.inr (.inr (.inl ⟨_, _, hcalls, he, rfl⟩)))⟩
      | aborted hcalls =>
        exact ⟨_, _, Directive.evaluate_error_iff.mpr (.inr (.inr (.inr ⟨hcalls, rfl⟩)))⟩

/-! ### Records -/

/-- No member of a mapping is stopped in the store that those before it have left. -/
def Progress.Unhalted (room : Nat) (registry : Registry) (record : Cell) (p : Progress)
    (mapping : Members) : Prop :=
  ∀ before member after q, mapping = before ++ member :: after →
    p.run room registry record before = (none, q) →
      ¬ (Entry.ofValue member.2).Halts room registry record q.canvas.store

variable {mapping : Members}

theorem Progress.exists_run_iff {p : Progress} :
    (∃ q, p.run room registry record mapping = (none, q)) ↔
      p.Unhalted room registry record mapping := by
  induction mapping generalizing p with
  | nil =>
    refine ⟨fun _ before member after q h => ?_, fun _ => ⟨p, rfl⟩⟩
    simp at h
  | cons member rest ih =>
    constructor
    · rintro ⟨q, hq⟩ before other after r hsplit hr hhalts
      obtain ⟨stop, t, hstop⟩ := exists_evaluateMember_error_iff.mpr hhalts
      rw [hsplit] at hq
      obtain ⟨r', hr', hother⟩ := run_append_iff.mp hq
      cases hr.symm.trans hr'
      obtain ⟨e, u, he, -⟩ := run_cons_iff.mp hother
      cases hstop.symm.trans he
    · intro h
      cases he : (evaluateMember room registry record member).within p.canvas.store with
      | mk result t =>
        cases result with
        | error stop =>
          exact (h [] member rest p rfl rfl
            (exists_evaluateMember_error_iff.mp ⟨stop, t, he⟩)).elim
        | ok e =>
          rw [run_cons_ok he]
          refine ih.mpr fun before other after q hsplit hq => ?_
          refine h (member :: before) other after q (by rw [hsplit]; rfl) ?_
          rw [run_cons_ok he]
          exact hq

/-- No record of a list is stopped when its turn comes. -/
inductive Unhalted (room : Nat) (registry : Registry) (mapping : Members) :
    List Cell → Store → Prop
  | nil (s : Store) : Unhalted room registry mapping [] s
  | cons {record : Cell} {rest : List Cell} {s : Store}
      (first : (Progress.ofStore s).Unhalted room registry record mapping)
      (then' : Unhalted room registry mapping rest
        (mapRecord room registry mapping record s).store) :
      Unhalted room registry mapping (record :: rest) s

theorem exists_mapRecord_ok_iff :
    (∃ mapped, (mapRecord room registry mapping record s).result = .ok mapped) ↔
      (Progress.ofStore s).Unhalted room registry record mapping := by
  rw [← Progress.exists_run_iff]
  constructor
  · rintro ⟨mapped, h⟩
    obtain ⟨p, hp, -⟩ := mapRecord_ok_iff.mp h
    exact ⟨p, hp⟩
  · rintro ⟨p, hp⟩
    exact ⟨_, mapRecord_ok_iff.mpr ⟨p, hp, rfl⟩⟩

theorem goes_iff_unhalted {records : List Cell} :
    Batch.Goes (mapRecord room registry mapping) records s ↔
      Unhalted room registry mapping records s := by
  constructor
  · intro h
    induction h with
    | nil s => exact .nil s
    | cons first _ ih => exact .cons (exists_mapRecord_ok_iff.mp ⟨_, first⟩) ih
  · intro h
    induction h with
    | nil s => exact .nil s
    | cons first _ ih =>
      obtain ⟨m, hm⟩ := exists_mapRecord_ok_iff.mpr first
      exact .cons hm ih

end

/-! ### Whole inputs -/

/-- The records of an input in the order in which they are mapped, and how many calls fit there. -/
def turnsOf (room : Nat) (workers : Option Workers) (s : Store) (input : Cell) : Nat × List Cell :=
  match s.elements? input, workers with
  | none, _ => (room - 1, [input])
  | some records, none => (room - 2, Batch.turns records [] [])
  | some records, some w => (w.room, Batch.turns records [] (w.schedule records.length))

/-- A mapping runs to its end exactly if no entry is stopped when its turn comes. -/
theorem mapInput_ok_iff (room : Nat) (workers : Option Workers) (registry : Registry)
    (mapping : Members) (input : Cell) (s : Store) :
    (∃ mapped, (mapInput room workers registry mapping input s).result = .ok mapped) ↔
      Unhalted (turnsOf room workers s input).1 registry mapping
        (turnsOf room workers s input).2 s := by
  unfold mapInput turnsOf
  cases s.elements? input with
  | none =>
    dsimp only
    rw [exists_mapRecord_ok_iff]
    constructor
    · exact fun h => .cons h (.nil _)
    · rintro ⟨⟩
      assumption
  | some records =>
    have hrecords : ∀ room order,
        (∃ mapped, (mapRecords (mapRecord room registry mapping) order records s).ofRecords.result
            = .ok mapped) ↔
          Unhalted room registry mapping (Batch.turns records [] order) s := by
      intro room order
      rw [← goes_iff_unhalted, ← mapRecords_ok_iff]
      generalize mapRecords (mapRecord room registry mapping) order records s = o
      unfold Outcome.ofRecords
      cases o.result <;> simp
    cases workers with
    | none => exact hrecords (room - 2) []
    | some w => exact hrecords w.room (w.schedule records.length)

/-- An index of too many digits stops any record, a position only a list; either stops all the
records of an input. -/
theorem mapInput_overlong :
    let one := load (.obj []) {}
    let two := load (.list [.list [], .obj []]) {}
    (¬ ∃ mapped, (mapInput 100 none .empty [("s", .str "=x"), ("t", .str Segment.overlongIndex)]
        one.1 one.2).result = .ok mapped) ∧
      ¬ ∃ mapped, (mapInput 100 none .empty [("t", .str overlongPosition)] two.1 two.2).result =
        .ok mapped := by
  intro one two
  simp only [mapInput_ok_iff]
  have hpiece : Segment.overlongIndex ∈ Path.pieces Segment.overlongIndex := by
    rw [Path.pieces_overlongIndex]
    exact List.mem_cons_self
  constructor
  · intro h
    have h' : Unhalted 99 .empty [("s", .str "=x"), ("t", .str Segment.overlongIndex)]
        [.ref 0] one.2 := h
    cases h' with
    | cons first _ =>
      exact first [("s", .str "=x")] ("t", .str Segment.overlongIndex) [] _ rfl rfl
        (.unread (.inl ⟨Segment.overlongIndex, hpiece, Segment.overlong_overlongIndex⟩))
  · intro h
    have h' : Unhalted 98 .empty [("t", .str overlongPosition)] [.ref 0, .ref 1] two.2 := h
    cases h' with
    | cons first _ =>
      exact first [] ("t", .str overlongPosition) [] _ rfl rfl
        (.unread (.inr ⟨_, Path.ofText_overlongPosition,
          Look.Blocked.here (rfl : _ = View.list []) overlongPosition_overlongPosition⟩))

end Reshape

import Reshape.Mapping
import Reshape.Proofs.Store.Tree

/-!
# A mapping, member by member

What a step of a mapping comes to in a store, and what it leaves there. A directive that is not
stopped fails and gives a warning, or has the answer of its transform (`Directive.evaluate_ok_iff`).
A record is mapped member by member (`Progress.run_cons_iff`, `Progress.run_append_iff`): each
member is evaluated in the store that the members before it have left, and an output is there unless
one of them is stopped (`mapRecord_ok_iff`).
-/

namespace Reshape

namespace Run

variable {α β ε : Type}

theorem within_pure (a : α) (s : Store) : (pure a : Run α).within s = (.ok a, s) :=
  rfl

theorem within_bind (x : Run α) (f : α → Run β) (s : Store) :
    (x >>= f).within s = match x.within s with
      | (.ok a, t) => (f a).within t
      | (.error stop, t) => (.error stop, t) := by
  change (match x.within s with
    | (result, t) => (ExceptT.bindCont f result : StateM Store _) t) = _
  rcases x.within s with ⟨_ | _, _⟩ <;> rfl

theorem within_bind_ok_iff {x : Run α} {f : α → Run β} {s u : Store} {b : β} :
    (x >>= f).within s = (.ok b, u) ↔
      ∃ a t, x.within s = (.ok a, t) ∧ (f a).within t = (.ok b, u) := by
  rw [within_bind]
  rcases x.within s with ⟨_ | a, t⟩ <;> simp

theorem within_bind_error_iff {x : Run α} {f : α → Run β} {s u : Store} {stop : Stop} :
    (x >>= f).within s = (.error stop, u) ↔
      x.within s = (.error stop, u) ∨
        ∃ a t, x.within s = (.ok a, t) ∧ (f a).within t = (.error stop, u) := by
  rw [within_bind]
  rcases x.within s with ⟨_ | a, t⟩ <;> simp

theorem within_ofExcept (stop : ε → Stop) (x : Except ε α) (s : Store) :
    (ofExcept stop x).within s = (x.mapError stop, s) := by
  cases x <;> rfl

theorem within_call (found : Registered) (room : Nat) (args : List Cell) (s : Store) :
    (call found room args).within s =
      (.ok (found.call room args s).1, (found.call room args s).2) :=
  rfl

/-- A copy is made of what a node holds, or copying stops at its depth. -/
theorem copy_within (room a : Nat) (s : Store) :
    (copy room (.ref a)).within s = match copyWithin room (.ref a) { store := s } with
      | (some d, p) => (.ok d, p.store)
      | (none, p) => (.error .tooDeep, p.store) :=
  rfl

/-- Reading stops for too many digits, finds nothing, or finds a cell in a store with more nodes. -/
theorem read_within (record : Cell) (text : Text) (s : Store) :
    (read record text).within s = match s.look.readText record text with
      | .error limit => (.error (.tooManyDigits limit), s)
      | .ok none => (.ok none, s)
      | .ok (some (.one c)) => (.ok (some c), s)
      | .ok (some (.all cs)) => (.ok (some (.ref s.size)), s.push (.list cs)) :=
  rfl

end Run

/-! ### Directives -/

namespace Directive

variable {room : Nat} {registry : Registry} {record : Cell} {target : Text} {d : Directive}
  {s t : Store} {e : Evaluation} {stop : Stop}

/-- The transform of a directive is found and called in a store, and this is what the call comes to
and leaves. -/
def Calls (room : Nat) (registry : Registry) (record : Cell) (s : Store) (d : Directive)
    (answer : Answer) (t : Store) : Prop :=
  ∃ found args u, registry.lookup d.name = some found ∧
    (d.arguments (room - 3) record).within s = (.ok args, u) ∧ found.call room args u = (answer, t)

theorem Calls.unique {answer answer' : Answer} {t' : Store}
    (h : d.Calls room registry record s answer t) (h' : d.Calls room registry record s answer' t') :
    answer = answer' := by
  obtain ⟨found, args, u, hl, hargs, hcall⟩ := h
  obtain ⟨found', args', u', hl', hargs', hcall'⟩ := h'
  cases hl.symm.trans hl'
  cases hargs.symm.trans hargs'
  cases hcall.symm.trans hcall'
  rfl

theorem warn_ok_iff {message : Except TextError Text} :
    (d.warn target message).within s = (.ok e, t) ↔
      ∃ m, message = .ok m ∧ t = s ∧
        e = { target, warning := some { target, name := d.name, message := m } } := by
  rw [warn, Run.within_bind, Run.within_ofExcept]
  cases message with
  | error te => simp [Except.mapError]
  | ok m =>
    simp only [Except.mapError, Run.within_pure, Prod.mk.injEq, Except.ok.injEq, exists_eq_left']
    exact ⟨fun h => ⟨h.2.symm, h.1.symm⟩, fun h => ⟨h.2.symm, h.1.symm⟩⟩

theorem warn_error_iff {message : Except TextError Text} :
    (d.warn target message).within s = (.error stop, t) ↔
      ∃ te, message = .error te ∧ t = s ∧ stop = .unshown te := by
  rw [warn, Run.within_bind, Run.within_ofExcept]
  cases message with
  | error te =>
    simp only [Except.mapError, Prod.mk.injEq, Except.error.injEq, exists_eq_left']
    exact ⟨fun h => ⟨h.2.symm, h.1.symm⟩, fun h => ⟨h.2.symm, h.1.symm⟩⟩
  | ok m => simp [Except.mapError, Run.within_pure]

/-- What is done with a call, once its transform is found. -/
theorem evaluate_found {found : Registered} (hl : registry.lookup d.name = some found) :
    (d.evaluate room registry record target).within s =
      match (d.arguments (room - 3) record).within s with
      | (.error stop, u) => (.error stop, u)
      | (.ok args, u) => match found.call room args u with
        | (.value value, t) => (.ok { target, value }, t)
        | (.failed err, t) => (d.warn target (d.failedMessage room err)).within t
        | (.aborted, t) => (.error .aborted, t) := by
  rw [evaluate, hl]
  dsimp only
  rw [Run.within_bind]
  rcases (d.arguments (room - 3) record).within s with ⟨_ | args, u⟩
  · rfl
  · dsimp only
    rw [Run.within_bind, Run.within_call]
    generalize found.call room args u = r
    obtain ⟨_ | _ | _, t⟩ := r <;> rfl

theorem evaluate_unknown (hl : registry.lookup d.name = none) :
    (d.evaluate room registry record target).within s =
      (d.warn target (d.unknownMessage room)).within s := by
  rw [evaluate, hl]

theorem calls_iff {found : Registered} {args : List Cell} {u : Store} {answer : Answer}
    (hl : registry.lookup d.name = some found)
    (hargs : (d.arguments (room - 3) record).within s = (.ok args, u)) :
    d.Calls room registry record s answer t ↔ found.call room args u = (answer, t) := by
  constructor
  · rintro ⟨found', args', u', hl', hargs', hcall⟩
    cases hl.symm.trans hl'
    cases hargs.symm.trans hargs'
    exact hcall
  · exact fun hcall => ⟨found, args, u, hl, hargs, hcall⟩

/-- A directive that is not stopped fails, and gives a warning, or has the answer of its
transform. -/
theorem evaluate_ok_iff :
    (d.evaluate room registry record target).within s = (.ok e, t) ↔
      (registry.lookup d.name = none ∧ t = s ∧ ∃ m, d.unknownMessage room = .ok m ∧
        e = { target, warning := some { target, name := d.name, message := m } }) ∨
      (∃ err m, d.Calls room registry record s (.failed err) t ∧ d.failedMessage room err = .ok m ∧
        e = { target, warning := some { target, name := d.name, message := m } }) ∨
      ∃ value, d.Calls room registry record s (.value value) t ∧ e = { target, value } := by
  cases hl : registry.lookup d.name with
  | none =>
    have hno : ∀ answer, ¬ d.Calls room registry record s answer t := by
      rintro answer ⟨found, args, u, hl', -⟩
      cases hl.symm.trans hl'
    rw [evaluate_unknown hl, warn_ok_iff]
    constructor
    · rintro ⟨m, hm, rfl, rfl⟩
      exact .inl ⟨rfl, rfl, m, hm, rfl⟩
    · rintro (⟨-, rfl, m, hm, rfl⟩ | ⟨err, m, hcalls, -⟩ | ⟨value, hcalls, -⟩)
      · exact ⟨m, hm, rfl, rfl⟩
      · exact (hno _ hcalls).elim
      · exact (hno _ hcalls).elim
  | some found =>
    rw [evaluate_found hl]
    cases hargs : (d.arguments (room - 3) record).within s with
    | mk result u =>
      cases result with
      | error stop =>
        have hno : ∀ answer, ¬ d.Calls room registry record s answer t := by
          rintro answer ⟨found, args, u', -, hargs', -⟩
          cases hargs.symm.trans hargs'
        simp [hno]
      | ok args =>
        simp only [calls_iff hl hargs]
        generalize found.call room args u = r
        obtain ⟨value | err | _, t'⟩ := r
        · simp only [Prod.mk.injEq, Except.ok.injEq, Answer.value.injEq]
          constructor
          · rintro ⟨rfl, rfl⟩
            exact .inr (.inr ⟨value, ⟨rfl, rfl⟩, rfl⟩)
          · rintro (⟨h, -⟩ | ⟨err, m, h, -⟩ | ⟨value', ⟨rfl, rfl⟩, rfl⟩)
            · cases h
            · cases h.1
            · exact ⟨rfl, rfl⟩
        · dsimp only
          rw [warn_ok_iff]
          simp only [Prod.mk.injEq, Answer.failed.injEq]
          constructor
          · rintro ⟨m, hm, rfl, rfl⟩
            exact .inr (.inl ⟨err, m, ⟨rfl, rfl⟩, hm, rfl⟩)
          · rintro (⟨h, -⟩ | ⟨err', m, ⟨rfl, rfl⟩, hm, rfl⟩ | ⟨value, h, -⟩)
            · cases h
            · exact ⟨m, hm, rfl, rfl⟩
            · cases h.1
        · simp

/-- What stops a directive: its message cannot be made, an argument stops it, or the call is
aborted. -/
theorem evaluate_error_iff :
    (d.evaluate room registry record target).within s = (.error stop, t) ↔
      (registry.lookup d.name = none ∧ t = s ∧ ∃ te, d.unknownMessage room = .error te ∧
        stop = .unshown te) ∨
      (registry.lookup d.name ≠ none ∧
        (d.arguments (room - 3) record).within s = (.error stop, t)) ∨
      (∃ err te, d.Calls room registry record s (.failed err) t ∧
        d.failedMessage room err = .error te ∧ stop = .unshown te) ∨
      d.Calls room registry record s .aborted t ∧ stop = .aborted := by
  cases hl : registry.lookup d.name with
  | none =>
    have hno : ∀ answer, ¬ d.Calls room registry record s answer t := by
      rintro answer ⟨found, args, u, hl', -⟩
      cases hl.symm.trans hl'
    rw [evaluate_unknown hl, warn_error_iff]
    simp only [ne_eq, not_true_eq_false, false_and, hno, exists_false, or_false, true_and]
    constructor
    · rintro ⟨te, hte, rfl, rfl⟩
      exact ⟨rfl, te, hte, rfl⟩
    · rintro ⟨rfl, te, hte, rfl⟩
      exact ⟨te, hte, rfl, rfl⟩
  | some found =>
    rw [evaluate_found hl]
    cases hargs : (d.arguments (room - 3) record).within s with
    | mk result u =>
      cases result with
      | error stop' =>
        have hno : ∀ answer, ¬ d.Calls room registry record s answer t := by
          rintro answer ⟨found, args, u', -, hargs', -⟩
          cases hargs.symm.trans hargs'
        simp [hno]
      | ok args =>
        simp only [calls_iff hl hargs]
        generalize found.call room args u = r
        obtain ⟨value | err | _, t'⟩ := r
        · simp
        · dsimp only
          rw [warn_error_iff]
          simp only [Prod.mk.injEq, Answer.failed.injEq, reduceCtorEq, false_and, false_or, ne_eq,
            not_false_eq_true, true_and, or_false]
          constructor
          · rintro ⟨te, hte, rfl, rfl⟩
            exact ⟨err, te, ⟨rfl, rfl⟩, hte, rfl⟩
          · rintro ⟨err', te, ⟨rfl, rfl⟩, hte, rfl⟩
            exact ⟨te, hte, rfl, rfl⟩
        · simp only [Prod.mk.injEq, Except.error.injEq, reduceCtorEq, false_and, ne_eq,
            not_false_eq_true, and_false, exists_false, false_or, true_and]
          exact ⟨fun h => ⟨h.2, h.1.symm⟩, fun h => ⟨h.2.symm, h.1⟩⟩

end Directive

/-! ### One member -/

section

variable {room : Nat} {registry : Registry} {record : Cell} {member : Text × Value} {s t : Store}
  {e : Evaluation} {stop : Stop}

theorem evaluateMember_source {source : Source} (hs : Entry.ofValue member.2 = .source source) :
    (evaluateMember room registry record member).within s =
      match (source.produce room record).within s with
      | (.ok value, t) => (.ok { target := member.1, value }, t)
      | (.error stop, t) => (.error stop, t) := by
  rw [evaluateMember, hs, Entry.evaluate, Run.within_bind]
  rcases (source.produce room record).within s with ⟨_ | _, _⟩ <;> rfl

theorem evaluateMember_directive {d : Directive} (hd : Entry.ofValue member.2 = .directive d) :
    evaluateMember room registry record member =
      d.evaluate (room - 1) registry record member.1 := by
  rw [evaluateMember, hd, Entry.evaluate]

theorem evaluateMember_target
    (h : (evaluateMember room registry record member).within s = (.ok e, t)) :
    e.target = member.1 := by
  cases hm : Entry.ofValue member.2 with
  | source source =>
    rw [evaluateMember_source hm] at h
    split at h
    · cases h
      rfl
    · cases h
  | directive d =>
    rw [evaluateMember_directive hm, Directive.evaluate_ok_iff] at h
    rcases h with ⟨-, -, m, -, rfl⟩ | ⟨err, m, -, -, rfl⟩ | ⟨value, -, rfl⟩ <;> rfl

end

/-! ### Many members -/

namespace Progress

variable {room : Nat} {registry : Registry} {record : Cell} {p q : Progress} {member : Text × Value}
  {mapping rest : Members} {s : Store} {e : Evaluation} {stop : Stop}

theorem run_cons_ok
    (h : (evaluateMember room registry record member).within p.canvas.store = (.ok e, s)) :
    p.run room registry record (member :: rest) = (p.add s e).run room registry record rest := by
  rw [run, h]

theorem run_cons_error
    (h : (evaluateMember room registry record member).within p.canvas.store = (.error stop, s)) :
    p.run room registry record (member :: rest) =
      (some stop, { p with canvas := { p.canvas with store := s } }) := by
  rw [run, h]

/-- A run that is not stopped is a step and the run after it. -/
theorem run_cons_iff :
    p.run room registry record (member :: rest) = (none, q) ↔
      ∃ e s, (evaluateMember room registry record member).within p.canvas.store = (.ok e, s) ∧
        (p.add s e).run room registry record rest = (none, q) := by
  cases h : (evaluateMember room registry record member).within p.canvas.store with
  | mk result s =>
    cases result with
    | error stop => simp [run_cons_error h]
    | ok e =>
      rw [run_cons_ok h]
      constructor
      · exact fun hrun => ⟨e, s, rfl, hrun⟩
      · rintro ⟨e', s', heq, hrun⟩
        cases heq
        exact hrun

theorem run_append_iff {others : Members} :
    p.run room registry record (mapping ++ others) = (none, q) ↔
      ∃ m, p.run room registry record mapping = (none, m) ∧
        m.run room registry record others = (none, q) := by
  induction mapping generalizing p with
  | nil => simp [run]
  | cons member rest ih =>
    rw [List.cons_append, run_cons_iff]
    simp only [run_cons_iff, ih]
    constructor
    · rintro ⟨e, s, h, m, hm, hq⟩
      exact ⟨m, ⟨e, s, h, hm⟩, hq⟩
    · rintro ⟨m, ⟨e, s, h, hm⟩, hq⟩
      exact ⟨e, s, h, m, hm, hq⟩

/-- What the entries came to is told in the order of the mapping. -/
theorem evaluations_run (h : p.run room registry record mapping = (none, q)) :
    ∃ es, q.evaluations = p.evaluations ++ es ∧ es.map (·.target) = mapping.map Prod.fst := by
  induction mapping generalizing p with
  | nil =>
    cases h
    exact ⟨[], by simp, rfl⟩
  | cons member rest ih =>
    obtain ⟨e, s, he, hrest⟩ := run_cons_iff.mp h
    obtain ⟨es, hes, htargets⟩ := ih hrest
    refine ⟨e :: es, ?_, ?_⟩
    · rw [hes, add, List.append_assoc]
      rfl
    · rw [List.map_cons, List.map_cons, htargets, evaluateMember_target he]

end Progress

section

variable {room : Nat} {registry : Registry} {record : Cell} {mapping : Members} {s : Store}

/-- A record is mapped exactly if no member of the mapping is stopped. -/
theorem mapRecord_ok_iff {mapped : Mapped} :
    (mapRecord room registry mapping record s).result = .ok mapped ↔
      ∃ p, (Progress.ofStore s).run room registry record mapping = (none, p) ∧
        mapped = { output := .ref p.canvas.store.size
                   warnings := p.evaluations.filterMap (·.warning) } := by
  rw [mapRecord]
  rcases (Progress.ofStore s).run room registry record mapping with ⟨_ | stop, p⟩
  · simp [@eq_comm _ mapped]
  · simp

theorem mapRecord_of_run {p : Progress}
    (h : (Progress.ofStore s).run room registry record mapping = (none, p)) :
    mapRecord room registry mapping record s =
      { result := .ok { output := .ref p.canvas.store.size
                        warnings := p.evaluations.filterMap (·.warning) }
        store := p.canvas.store.push (.obj p.canvas.members)
        journal := p.evaluations.flatMap Evaluation.journal } := by
  rw [mapRecord, h]

theorem mapRecord_of_stop {p : Progress} {stop : Stop}
    (h : (Progress.ofStore s).run room registry record mapping = (some stop, p)) :
    mapRecord room registry mapping record s =
      { result := .error stop, store := p.canvas.store
        journal := p.evaluations.flatMap Evaluation.journal } := by
  rw [mapRecord, h]

end

end Reshape

import Reshape.Proofs.Mapping.Run
import Reshape.Proofs.Store.Copying
import Reshape.Proofs.Transform.Pure

/-!
# Mapping in coupled stores

Whatever a mapping does in two coupled stores is done alike, if the registry is pure and what the
mapping reads of two records is read alike (`Coupling.ReadsAlike`), as it is of corresponding
records: entries are stopped alike or come to corresponding cells, with the same warnings
(`evaluateMember_ends`), and so is the whole of a record mapped (`Progress.run_ends`,
`mapRecord_ends`). Evaluating an entry only adds nodes (`evaluateMember_grows`); it is writing that
changes them.
-/

namespace Reshape

/-- The path that a source reads. -/
def Source.paths : Source → List Text
  | path text => [text]
  | _ => []

/-- The paths that an entry reads. A directive reads none if its transform is not registered. -/
def Entry.paths (registry : Registry) : Entry → List Text
  | source s => s.paths
  | directive d => if (registry.lookup d.name).isSome then d.args.flatMap Source.paths else []

/-! ### Steps -/

namespace Coupling

/-- A path is read alike on both sides, now and after whatever is done alike. -/
def ReadsAlike {s s' : Store} (C : Coupling s s') (record record' : Cell) (text : Text) : Prop :=
  ∀ (t t' : Store) (D : Coupling t t'), C.Step D →
    Traverse.Rel (Option.Rel (Found.Rel (Cell.Rel D.rel))) (t.look.readText record text)
      (t'.look.readText record' text)

theorem readsAlike {s s' : Store} (C : Coupling s s') {record record' : Cell}
    (h : Cell.Rel C.rel record record') (text : Text) : C.ReadsAlike record record' text :=
  fun _ _ D hstep => D.look.readText (hstep.cell h) text

theorem ReadsAlike.step {s s' t t' : Store} {C : Coupling s s'} {D : Coupling t t'}
    {record record' : Cell} {text : Text} (h : C.ReadsAlike record record' text)
    (hstep : C.Step D) :
    D.ReadsAlike record record' text :=
  fun t t' E hE => h t t' E (hstep.trans hE)

variable {α β α' β' : Type} {s s' : Store}

/-- Two steps end in coupled stores, stopped alike or with corresponding results. -/
def Ends (C : Coupling s s') (R : (Nat → Nat → Prop) → α → β → Prop) (r : Except Stop α × Store)
    (r' : Except Stop β × Store) : Prop :=
  ∃ D : Coupling r.2 r'.2, C.Step D ∧ Traverse.Rel (R D.rel) r.1 r'.1

variable {R : (Nat → Nat → Prop) → α → β → Prop} {S : (Nat → Nat → Prop) → α' → β' → Prop}

theorem ends_pure (C : Coupling s s') {a : α} {b : β} (h : R C.rel a b) :
    C.Ends R ((pure a : Run α).within s) ((pure b : Run β).within s') :=
  ⟨C, .refl C, .ok h⟩

theorem Ends.bind {C : Coupling s s'} {x : Run α} {y : Run β} {f : α → Run α'} {g : β → Run β'}
    (h : C.Ends R (x.within s) (y.within s'))
    (hfg : ∀ {t t'} (D : Coupling t t'), C.Step D → ∀ a b, R D.rel a b →
      D.Ends S ((f a).within t) ((g b).within t')) :
    C.Ends S ((x >>= f).within s) ((y >>= g).within s') := by
  rw [Run.within_bind, Run.within_bind]
  generalize x.within s = r, y.within s' = r' at h
  obtain ⟨result, t⟩ := r
  obtain ⟨result', t'⟩ := r'
  obtain ⟨D, hstep, hresult⟩ := h
  cases hresult with
  | error stop => exact ⟨D, hstep, .error stop⟩
  | ok hab =>
    obtain ⟨E, hstep', hresult⟩ := hfg D hstep _ _ hab
    exact ⟨E, hstep.trans hstep', hresult⟩

/-- Where one of two corresponding steps is not stopped, the other is not either. -/
theorem Ends.exists_ok {C : Coupling s s'} {r : Except Stop α × Store} {r' : Except Stop β × Store}
    (h : C.Ends R r r') {a : α} {t : Store} (hr : r = (.ok a, t)) :
    ∃ b t', r' = (.ok b, t') ∧ ∃ D : Coupling t t', C.Step D ∧ R D.rel a b := by
  obtain ⟨result', t'⟩ := r'
  subst hr
  obtain ⟨D, hstep, hresult⟩ := h
  cases hresult with
  | ok hab => exact ⟨_, _, rfl, D, hstep, hab⟩

theorem Ends.exists_ok_left {C : Coupling s s'} {r : Except Stop α × Store}
    {r' : Except Stop β × Store} (h : C.Ends R r r') {b : β} {t' : Store} (hr : r' = (.ok b, t')) :
    ∃ a t, r = (.ok a, t) ∧ ∃ D : Coupling t t', C.Step D ∧ R D.rel a b := by
  obtain ⟨result, t⟩ := r
  subst hr
  obtain ⟨D, hstep, hresult⟩ := h
  cases hresult with
  | ok hab => exact ⟨_, _, rfl, D, hstep, hab⟩

theorem Ends.exists_error {C : Coupling s s'} {r : Except Stop α × Store}
    {r' : Except Stop β × Store} (h : C.Ends R r r') {stop : Stop} {t : Store}
    (hr : r = (.error stop, t)) : ∃ t', r' = (.error stop, t') := by
  obtain ⟨result', t'⟩ := r'
  subst hr
  obtain ⟨D, -, hresult⟩ := h
  cases hresult with
  | error stop => exact ⟨t', rfl⟩

theorem ends_throw (C : Coupling s s') (stop : Stop) :
    C.Ends R ((throw stop : Run α).within s) ((throw stop : Run β).within s') :=
  ⟨C, .refl C, .error stop⟩

theorem ends_ofExcept {γ ε : Type} (C : Coupling s s') (stop : ε → Stop) (x : Except ε γ) :
    C.Ends (fun _ => (· = ·)) ((Run.ofExcept stop x).within s)
      ((Run.ofExcept stop x).within s') := by
  cases x with
  | error e => exact ⟨C, .refl C, .error (stop e)⟩
  | ok a => exact ⟨C, .refl C, .ok rfl⟩

end Coupling

section

variable {s s' : Store} {room : Nat} {record record' : Cell}

theorem load_ends (C : Coupling s s') (room : Nat) (v : Value) :
    C.Ends Cell.Rel ((Run.load room v).within s) ((Run.load room v).within s') := by
  have hload : C.Ends Cell.Rel
      (if room < v.roomToCopy then (.error .tooDeep, s) else (.ok (load v s).1, (load v s).2))
      (if room < v.roomToCopy then (.error .tooDeep, s')
        else (.ok (load v s').1, (load v s').2)) := by
    split
    · exact ⟨C, .refl C, .error _⟩
    · obtain ⟨D, hstep, hcell⟩ := exists_step_load C v
      exact ⟨D, hstep, .ok hcell⟩
  cases v with
  | list xs => exact hload
  | obj ms => exact hload
  | _ => exact ⟨C, .refl C, .ok (.scalar _)⟩

theorem copy_ends (C : Coupling s s') (room : Nat) {c d : Cell} (hcd : Cell.Rel C.rel c d) :
    C.Ends Cell.Rel ((Run.copy room c).within s) ((Run.copy room d).within s') := by
  cases hcd with
  | scalar x => exact ⟨C, .refl C, .ok (.scalar x)⟩
  | @ref a b hab =>
    have hcopy : CopiesAlike Cell.Rel C (copyWithin room (.ref a) { store := s })
      (copyWithin room (.ref b) { store := s' }) :=
      @copyWithin_alike room _ _ { store := s } { store := s' } C .nil (.ref hab)
    obtain ⟨D, hstep, -, hresult⟩ := hcopy
    unfold Run.copy Run.within ExceptT.run StateT.run
    dsimp only
    generalize copyWithin room (.ref a) { store := s } = r,
      copyWithin room (.ref b) { store := s' } = r' at D hstep hresult
    obtain ⟨c, p⟩ := r
    obtain ⟨d, p'⟩ := r'
    cases hresult with
    | none => exact ⟨D, hstep, .error _⟩
    | some hcd => exact ⟨D, hstep, .ok hcd⟩

theorem read_ends (C : Coupling s s') {text : Text} (hread : C.ReadsAlike record record' text) :
    C.Ends (fun R => Option.Rel (Cell.Rel R)) ((Run.read record text).within s)
      ((Run.read record' text).within s') := by
  have hfound := hread s s' C (.refl C)
  rw [Run.read_within, Run.read_within]
  generalize s.look.readText record text = x, s'.look.readText record' text = y at hfound
  cases hfound with
  | error limit => exact ⟨C, .refl C, .error _⟩
  | ok hfound =>
    cases hfound with
    | none => exact ⟨C, .refl C, .ok .none⟩
    | some hfound =>
      cases hfound with
      | one hcd => exact ⟨C, .refl C, .ok (.some hcd)⟩
      | all hcs => exact ⟨C.push (.list hcs), C.step_push _, .ok (.some (.ref (C.push_rel _)))⟩

theorem resolve_ends (C : Coupling s s') (source : Source)
    (hread : ∀ text ∈ source.paths, C.ReadsAlike record record' text) :
    C.Ends (fun R => Option.Rel (Cell.Rel R)) ((source.resolve room record).within s)
      ((source.resolve room record').within s') := by
  cases source with
  | skip => exact C.ends_pure (a := none) (b := none) .none
  | literal v =>
    refine (load_ends C room v).bind fun D _ c d hcd => ?_
    exact D.ends_pure (a := some c) (b := some d) (.some hcd)
  | path text => exact read_ends C (hread text List.mem_cons_self)

theorem produce_ends (C : Coupling s s') (source : Source)
    (hread : ∀ text ∈ source.paths, C.ReadsAlike record record' text) :
    C.Ends (fun R => Option.Rel (Cell.Rel R)) ((source.produce room record).within s)
      ((source.produce room record').within s') := by
  cases source with
  | skip => exact C.ends_pure (a := none) (b := none) .none
  | literal v => exact resolve_ends C (.literal v) hread
  | path text =>
    refine (read_ends C (hread text List.mem_cons_self)).bind fun D _ x y hxy => ?_
    cases hxy with
    | none => exact D.ends_pure (a := none) (b := none) .none
    | some hcd =>
      refine (copy_ends D room hcd).bind fun E _ c d hcd => ?_
      exact E.ends_pure (a := some c) (b := some d) (.some hcd)

theorem arguments_ends (C : Coupling s s') (d : Directive)
    (hread : ∀ text ∈ d.args.flatMap Source.paths, C.ReadsAlike record record' text) :
    C.Ends (fun R => List.Forall₂ (Cell.Rel R)) ((d.arguments room record).within s)
      ((d.arguments room record').within s') := by
  obtain ⟨name, sources⟩ := d
  unfold Directive.arguments
  dsimp only at hread ⊢
  induction sources generalizing s s' with
  | nil => exact C.ends_pure (a := []) (b := []) .nil
  | cons source rest ih =>
    rw [List.flatMap_cons, List.forall_mem_append] at hread
    rw [List.mapM_cons, List.mapM_cons]
    refine Coupling.Ends.bind (R := Cell.Rel) ?_ fun D hstep c d hcd => ?_
    · refine (resolve_ends C source hread.1).bind fun D _ x y hxy => ?_
      exact D.ends_pure (rel_getD hxy (.scalar .null))
    · refine (ih D fun text ht => (hread.2 text ht).step hstep).bind fun E hstep' cs ds hcs => ?_
      exact E.ends_pure (a := c :: cs) (b := d :: ds) (.cons (hstep'.cell hcd) hcs)

end

/-! ### Entries -/

/-- What two entries came to corresponds, with the same warning. -/
structure Evaluation.Rel (R : Nat → Nat → Prop) (e e' : Evaluation) : Prop where
  target : e.target = e'.target
  value : Option.Rel (Cell.Rel R) e.value e'.value
  warning : e.warning = e'.warning

theorem Evaluation.Rel.mono {R S : Nat → Nat → Prop} (hRS : ∀ {a b}, R a b → S a b)
    {e e' : Evaluation} (h : e.Rel R e') : e.Rel S e' where
  target := h.target
  value := by
    obtain ⟨target, value, warning⟩ := e
    obtain ⟨target', value', warning'⟩ := e'
    have hvalue := h.value
    dsimp only at hvalue ⊢
    cases hvalue with
    | none => exact .none
    | some hcd => exact .some (hcd.mono fun _ _ => hRS)
  warning := h.warning

section

variable {s s' : Store} {room base : Nat} {registry : Registry} {record record' : Cell}

theorem warn_ends (C : Coupling s s') (d : Directive) (target : Text)
    (message : Except TextError Text) :
    C.Ends Evaluation.Rel ((d.warn target message).within s)
      ((d.warn target message).within s') := by
  refine (C.ends_ofExcept .unshown message).bind fun D _ m m' hm => ?_
  subst hm
  exact D.ends_pure ⟨rfl, .none, rfl⟩

theorem call_ends {found : Registered} (hpure : Transform.Pure base found.call) (C : Coupling s s')
    (hC : C.Fixes base) {args args' : List Cell}
    (hargs : List.Forall₂ (Cell.Rel C.rel) args args') :
    C.Ends Answer.Rel ((Run.call found room args).within s)
      ((Run.call found room args').within s') :=
  let ⟨D, hstep, hanswer⟩ := hpure.alike room C hC hargs
  ⟨D, hstep, .ok hanswer⟩

theorem Directive.evaluate_ends (hpure : registry.Pure base) (C : Coupling s s')
    (hC : C.Fixes base) (d : Directive)
    (hread : ∀ text ∈ (Entry.directive d).paths registry, C.ReadsAlike record record' text)
    (target : Text) :
    C.Ends Evaluation.Rel ((d.evaluate room registry record target).within s)
      ((d.evaluate room registry record' target).within s') := by
  unfold Directive.evaluate
  cases hl : registry.lookup d.name with
  | none => exact warn_ends C d target _
  | some found =>
    rw [Entry.paths, hl, Option.isSome_some, if_pos rfl] at hread
    refine (arguments_ends C d hread).bind fun D hstep args args' hargs => ?_
    refine (call_ends (hpure.lookup hl) D (hstep.fixes hC) hargs).bind
      fun E _ answer answer' hanswer => ?_
    cases hanswer with
    | value hxy => exact E.ends_pure ⟨rfl, hxy, rfl⟩
    | failed e => exact warn_ends E d target _
    | aborted => exact E.ends_throw .aborted

/-- An entry comes to corresponding things in coupled stores. -/
theorem evaluateMember_ends (hpure : registry.Pure base) (C : Coupling s s')
    (hC : C.Fixes base) (member : Text × Value)
    (hread : ∀ text ∈ (Entry.ofValue member.2).paths registry, C.ReadsAlike record record' text) :
    C.Ends Evaluation.Rel ((evaluateMember room registry record member).within s)
      ((evaluateMember room registry record' member).within s') := by
  unfold evaluateMember Entry.evaluate
  cases hentry : Entry.ofValue member.2 with
  | source source =>
    rw [hentry] at hread
    refine (produce_ends C source hread).bind fun D _ x y hxy => ?_
    exact D.ends_pure ⟨rfl, hxy, rfl⟩
  | directive d =>
    rw [hentry] at hread
    exact Directive.evaluate_ends hpure C hC d hread member.1

/-! ### Records -/

/-- How far two records have come corresponds. -/
structure Progress.Rel (R : Nat → Nat → Prop) (p p' : Progress) : Prop where
  members : Keyed.Rel (Cell.Rel R) p.canvas.members p'.canvas.members
  evaluations : List.Forall₂ (Evaluation.Rel R) p.evaluations p'.evaluations

/-- What was evaluated is written alike. -/
theorem Progress.add_rel {p p' : Progress} {t t' : Store}
    (C : Coupling p.canvas.store p'.canvas.store) (hp : p.Rel C.rel p') (D : Coupling t t')
    (hstep : C.Step D) {e e' : Evaluation} (he : e.Rel D.rel e') :
    ∃ E : Coupling (p.add t e).canvas.store (p'.add t' e').canvas.store,
      D.Step E ∧ (p.add t e).Rel E.rel (p'.add t' e') := by
  obtain ⟨target, value, warning⟩ := e
  obtain ⟨target', value', warning'⟩ := e'
  obtain rfl : target = target' := he.target
  have hwrite : Canvas.Follow D ({ p.canvas with store := t }.writeOptional target value)
      ({ p'.canvas with store := t' }.writeOptional target value') :=
    @Canvas.writeOptional_follow { p.canvas with store := t }
      { p'.canvas with store := t' } target D
      (hstep.members hp.members) _ _ he.value
  obtain ⟨E, hstep', hms⟩ := hwrite
  refine ⟨E, hstep', hms, List.rel_append (hp.evaluations.imp fun _ _ h => ?_)
    (.cons (he.mono hstep'.keeps) .nil)⟩
  exact h.mono fun hab => hstep'.keeps (hstep.keeps hab)

/-- Two records are mapped alike, up to what stops them. -/
theorem Progress.run_ends (hpure : registry.Pure base) {p p' : Progress}
    (C : Coupling p.canvas.store p'.canvas.store) (hp : p.Rel C.rel p') (hC : C.Fixes base)
    (mapping : Members)
    (hread : ∀ member ∈ mapping, ∀ text ∈ (Entry.ofValue member.2).paths registry,
      C.ReadsAlike record record' text) :
    let r := p.run room registry record mapping
    let r' := p'.run room registry record' mapping
    ∃ D : Coupling r.2.canvas.store r'.2.canvas.store, C.Step D ∧ r.2.Rel D.rel r'.2 ∧
      r.1 = r'.1 := by
  induction mapping generalizing p p' with
  | nil => exact ⟨C, .refl C, hp, rfl⟩
  | cons member rest ih =>
    rw [List.forall_mem_cons] at hread
    have hmember : C.Ends Evaluation.Rel
        ((evaluateMember room registry record member).within p.canvas.store)
        ((evaluateMember room registry record' member).within p'.canvas.store) :=
      evaluateMember_ends hpure C hC member hread.1
    obtain ⟨D, hstep, hresult⟩ := hmember
    dsimp only
    rw [Progress.run, Progress.run]
    generalize (evaluateMember room registry record member).within p.canvas.store = x,
      (evaluateMember room registry record' member).within p'.canvas.store = y at D hstep hresult
    obtain ⟨result, t⟩ := x
    obtain ⟨result', t'⟩ := y
    cases hresult with
    | error stop =>
      exact ⟨D, hstep, ⟨hstep.members hp.members, hp.evaluations.imp fun _ _ h =>
        h.mono hstep.keeps⟩, rfl⟩
    | ok he =>
      obtain ⟨E, hstep', hadd⟩ := Progress.add_rel C hp D hstep he
      have hstep'' := hstep.trans hstep'
      obtain ⟨F, hstepF, hrun⟩ := ih E hadd (hstep''.fixes hC) fun member hm text ht =>
        (hread.2 member hm text ht).step hstep''
      exact ⟨F, hstep''.trans hstepF, hrun⟩

/-- Corresponding outputs, with the same warnings. -/
structure Mapped.Rel (R : Nat → Nat → Prop) (m m' : Mapped) : Prop where
  output : Cell.Rel R m.output m'.output
  warnings : m.warnings = m'.warnings

theorem warnings_eq {R : Nat → Nat → Prop} {es es' : List Evaluation}
    (h : List.Forall₂ (Evaluation.Rel R) es es') :
    es.filterMap (·.warning) = es'.filterMap (·.warning) := by
  induction h with
  | nil => rfl
  | cons he _ ih => rw [List.filterMap_cons, List.filterMap_cons, he.warning, ih]

theorem journal_eq {R : Nat → Nat → Prop} {es es' : List Evaluation}
    (h : List.Forall₂ (Evaluation.Rel R) es es') :
    es.flatMap Evaluation.journal = es'.flatMap Evaluation.journal := by
  induction h with
  | nil => rfl
  | @cons e e' _ _ he _ ih =>
    have hjournal : e.journal = e'.journal := by
      obtain ⟨target, value, warning⟩ := e
      obtain ⟨target', value', warning'⟩ := e'
      obtain rfl : target = target' := he.target
      obtain rfl : warning = warning' := he.warning
      have hvalue : Option.Rel (Cell.Rel R) value value' := he.value
      cases hvalue <;> cases warning <;> rfl
    rw [List.flatMap_cons, List.flatMap_cons, hjournal, ih]

/-- Two records are mapped alike. -/
theorem mapRecord_ends (hpure : registry.Pure base) (C : Coupling s s') (hC : C.Fixes base)
    (mapping : Members)
    (hread : ∀ member ∈ mapping, ∀ text ∈ (Entry.ofValue member.2).paths registry,
      C.ReadsAlike record record' text) :
    let o := mapRecord room registry mapping record s
    let o' := mapRecord room registry mapping record' s'
    C.Ends Mapped.Rel (o.result, o.store) (o'.result, o'.store) ∧ o.journal = o'.journal := by
  obtain ⟨D, hstep, hp, hstop⟩ := @Progress.run_ends room base registry record record' hpure
    (.ofStore s) (.ofStore s') C ⟨.nil, .nil⟩ hC mapping hread
  dsimp only
  unfold mapRecord
  generalize (Progress.ofStore s).run room registry record mapping = r,
    (Progress.ofStore s').run room registry record' mapping = r' at *
  obtain ⟨stopped, p⟩ := r
  obtain ⟨stopped', p'⟩ := r'
  dsimp only at hstop hp D hstep
  subst hstop
  refine ⟨?_, ?_⟩
  · cases stopped with
    | some stop => exact ⟨D, hstep, .error stop⟩
    | none =>
      have hnode : Node.Rel D.rel (.obj p.canvas.members) (.obj p'.canvas.members) :=
        .obj hp.members
      exact ⟨D.push hnode, hstep.trans (D.step_push hnode),
        .ok ⟨.ref (D.push_rel hnode), warnings_eq hp.evaluations⟩⟩
  · cases stopped <;> exact journal_eq hp.evaluations

/-! ### Evaluating adds nodes -/

theorem grows_bind {α β : Type} {x : Run α} {f : α → Run β}
    (hx : ∀ s : Store, s.Extends (x.within s).2)
    (hf : ∀ (a : α) (s : Store), s.Extends ((f a).within s).2) (s : Store) :
    s.Extends ((x >>= f).within s).2 := by
  have h := hx s
  rw [Run.within_bind]
  generalize x.within s = r at h
  obtain ⟨_ | a, t⟩ := r
  · exact h
  · exact h.trans (hf a t)

theorem grows_pure {α : Type} (a : α) (s : Store) : s.Extends ((pure a : Run α).within s).2 :=
  .refl s

theorem load_grows (room : Nat) (v : Value) (s : Store) :
    s.Extends ((Run.load room v).within s).2 := by
  have hload : s.Extends (if room < v.roomToCopy then ((.error .tooDeep, s) : Except Stop Cell × _)
      else (.ok (load v s).1, (load v s).2)).2 := by
    split
    · exact .refl s
    · exact extends_load v s
  cases v with
  | list xs => exact hload
  | obj ms => exact hload
  | _ => exact .refl s

theorem copy_grows (room : Nat) (c : Cell) (s : Store) :
    s.Extends ((Run.copy room c).within s).2 := by
  cases c with
  | scalar x => exact .refl s
  | ref a =>
    have h := copyWithin_extends room (.ref a) { store := s }
    unfold Run.copy Run.within ExceptT.run StateT.run
    dsimp only
    generalize copyWithin room (.ref a) { store := s } = r at h
    obtain ⟨_ | c, p⟩ := r <;> exact h

theorem read_grows (record : Cell) (text : Text) (s : Store) :
    s.Extends ((Run.read record text).within s).2 := by
  rw [Run.read_within]
  split
  · exact .refl s
  · exact .refl s
  · exact .refl s
  · exact .push s _

theorem resolve_grows (room : Nat) (record : Cell) (source : Source) (s : Store) :
    s.Extends ((source.resolve room record).within s).2 := by
  cases source with
  | skip => exact .refl s
  | literal v =>
    refine grows_bind (load_grows room v) ?_ s
    exact fun _ => grows_pure _
  | path text => exact read_grows record text s

theorem produce_grows (room : Nat) (record : Cell) (source : Source) (s : Store) :
    s.Extends ((source.produce room record).within s).2 := by
  cases source with
  | skip => exact .refl s
  | literal v => exact resolve_grows _ record (.literal v) s
  | path text =>
    refine grows_bind (read_grows record text) (fun found s => ?_) s
    cases found with
    | none => exact .refl s
    | some c =>
      refine grows_bind (copy_grows room c) ?_ s
      exact fun _ => grows_pure _

theorem arguments_grows (room : Nat) (record : Cell) (d : Directive) (s : Store) :
    s.Extends ((d.arguments room record).within s).2 := by
  unfold Directive.arguments
  induction d.args generalizing s with
  | nil => exact .refl s
  | cons source rest ih =>
    rw [List.mapM_cons]
    refine grows_bind (fun s => ?_) (fun c s => ?_) s
    · refine grows_bind (resolve_grows room record source) ?_ s
      exact fun _ => grows_pure _
    · refine grows_bind ih ?_ s
      exact fun _ => grows_pure _

theorem warn_grows (d : Directive) (target : Text) (message : Except TextError Text) (s : Store) :
    s.Extends ((d.warn target message).within s).2 := by
  refine grows_bind (fun s => ?_) (fun _ => grows_pure _) s
  rw [Run.within_ofExcept]
  exact .refl s

theorem call_grows {found : Registered} (h : found.call.Grows) (room : Nat) (args : List Cell)
    (s : Store) : s.Extends ((Run.call found room args).within s).2 :=
  h room args s

/-- Evaluating an entry leaves all nodes as they are. -/
theorem evaluateMember_grows (h : registry.Grows) (room : Nat) (record : Cell)
    (member : Text × Value) (s : Store) :
    s.Extends ((evaluateMember room registry record member).within s).2 := by
  unfold evaluateMember Entry.evaluate
  cases Entry.ofValue member.2 with
  | source source =>
    refine grows_bind (produce_grows room record source) ?_ s
    exact fun _ => grows_pure _
  | directive d =>
    unfold Directive.evaluate
    dsimp only
    cases hl : registry.lookup d.name with
    | none => exact warn_grows d member.1 _ s
    | some found =>
      refine grows_bind (arguments_grows _ record d) (fun args s => ?_) s
      refine grows_bind (call_grows (h.lookup hl) _ args) (fun answer s => ?_) s
      cases answer with
      | value x => exact .refl s
      | failed e => exact warn_grows d member.1 _ s
      | aborted => exact .refl s

end

end Reshape

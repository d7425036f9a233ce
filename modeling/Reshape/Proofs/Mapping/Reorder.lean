import Reshape.Proofs.Mapping.Told

/-!
# The order of a mapping

If the targets that a mapping writes to are independent of each other, the order of its members does
not matter: the output is the same up to the order of keys, and every member keeps its warning
(`mapRecord_perm`). What transforms answer with can be shared all the same, with the record or
between members, for a write to an independent target never enters what another member has written
(`Progress.Kept`). So every member comes to what it comes to at the start, whatever its turn is, and
two neighbours can change places (`written_swap`).
-/

namespace Reshape

open Value (Alike)

/-- The warning that a member gives at the start, if it gives one. -/
def warningOf (room : Nat) (registry : Registry) (record : Cell) (s : Store)
    (member : Text × Value) : Option Warning :=
  match ((evaluateMember room registry record member).within s).1 with
  | .ok e => e.warning
  | .error _ => none

/-! ### What is written -/

section

variable {tell : Text × Value → Told} {ms ns : Members}

theorem Compatible.symm {a b : Text × Value} (h : Compatible tell a b) : Compatible tell b a :=
  fun hb ha => (h ha hb).symm

theorem writeOptional_alike (h : Alike (.obj ms) (.obj ns)) (text : Text) (v : Option Value) :
    Alike (.obj (writeOptional ms text v)) (.obj (writeOptional ns text v)) := by
  cases v with
  | none => exact h
  | some v => exact Target.write_alike h

theorem written_alike (h : Alike (.obj ms) (.obj ns)) (mapping : Members) :
    Alike (.obj (written tell ms mapping)) (.obj (written tell ns mapping)) := by
  induction mapping generalizing ms ns with
  | nil => exact h
  | cons member rest ih => exact ih (writeOptional_alike h member.1 _)

theorem written_swap {a b : Text × Value} (h : Compatible tell a b) (ms : Members)
    (rest : Members) :
    Alike (.obj (written tell ms (a :: b :: rest))) (.obj (written tell ms (b :: a :: rest))) := by
  refine written_alike (?_ : Alike
    (.obj (writeOptional (writeOptional ms a.1 (tell a).value) b.1 (tell b).value))
    (.obj (writeOptional (writeOptional ms b.1 (tell b).value) a.1 (tell a).value))) rest
  unfold Compatible at h
  cases ha : (tell a).value with
  | none => exact .refl _
  | some v =>
    cases hb : (tell b).value with
    | none => exact .refl _
    | some w =>
      rw [ha, hb] at h
      exact Target.write_comm (Path.independent_iff_apart.mp (h nofun nofun)) ms

/-- The members of a mapping can be written in any order. -/
theorem written_perm {mapping other : Members} (hp : mapping.Perm other)
    (hc : mapping.Pairwise (Compatible tell)) (ms : Members) :
    Alike (.obj (written tell ms mapping)) (.obj (written tell ms other)) := by
  induction hp generalizing ms with
  | nil => exact .refl _
  | cons member _ ih => exact ih (List.pairwise_cons.mp hc).2 _
  | swap a b rest =>
    have hba : Compatible tell b a := (List.pairwise_cons.mp hc).1 a List.mem_cons_self
    exact written_swap hba ms rest
  | trans hp _ ih ih' =>
    have hc' := (hp.pairwise_iff fun h => Compatible.symm h).mp hc
    exact (ih hc ms).trans (ih' hc' ms)

end

/-! ### What is told of a run -/

/-- Two entries that both come to a value have independent targets. -/
def Evaluation.Compatible (e e' : Evaluation) : Prop :=
  e.value ≠ none → e'.value ≠ none → Path.Independent e.target e'.target

instance (e e' : Evaluation) : Decidable (e.Compatible e') :=
  inferInstanceAs (Decidable (_ → _ → _))

variable {room : Nat} {registry : Registry} {record : Tree} {s : Store}

/-- What an entry came to in its turn is what is told of it at the start. -/
structure Told.Of (room : Nat) (registry : Registry) (record : Cell) (s : Store)
    (member : Text × Value) (e : Evaluation) (x : Told) : Prop where
  tells : Tells room registry record s member x
  target : e.target = member.1
  warning : x.warning = e.warning
  value : x.value = none ↔ e.value = none

theorem Progress.Kept.forall_told {p q : Progress} {ts : Branches} {mapping : Members}
    {es : List Evaluation} (h : p.Kept s ts) (hs : s.Closed) (hrecord : record.Standing s)
    (hfull : record.Full) (hpure : registry.Pure s.size) (hvalued : registry.Valued s)
    (hrun : p.run room registry record.cell mapping = (none, q))
    (hes : q.evaluations = p.evaluations ++ es) (hc : es.Pairwise Evaluation.Compatible)
    (hclear : ∀ e ∈ es, e.value ≠ none → Branches.Clear (Target.ofText e.target) ts) :
    List.Forall₂
      (fun member e => ∃ x, Told.Of room registry record.cell s member e x) mapping es := by
  have hhas : s.Has record.cell := hrecord.has hfull
  induction mapping generalizing p ts es with
  | nil =>
    cases hrun
    rw [List.self_eq_append_right.mp hes]
    exact .nil
  | cons member rest ih =>
    obtain ⟨e, t, he, hrest⟩ := run_cons_iff.mp hrun
    obtain ⟨es', hes', -⟩ := evaluations_run hrest
    obtain rfl : es = e :: es' := by
      rw [hes', Progress.add, List.append_assoc] at hes
      exact (List.append_cancel_left hes).symm
    rw [List.pairwise_cons] at hc
    rw [List.forall_mem_cons] at hclear
    obtain ⟨e₀, t₀, he₀, hwarning, hvalue⟩ := h.exists_start hs hhas hpure he
    obtain ⟨x, hx, hwarning', hvalue'⟩ := exists_tells hvalued hrecord hfull he₀
    have htarget := evaluateMember_target he
    have hsome : x.value = none ↔ e.value = none := hvalue'.trans hvalue
    obtain ⟨e', t', us, he', -, -, hkept, -, hclear'⟩ := h.add hs hhas hpure hx fun hvalue => by
      rw [← htarget]
      exact hclear.1 fun hnone => hvalue (hsome.mpr hnone)
    cases he.symm.trans he'
    refine .cons ⟨x, hx, htarget, hwarning'.trans hwarning, hsome⟩
      (ih hkept hrest hes' hc.2 fun d hd hdvalue => ?_)
    refine hclear' d.target (fun hvalue => ?_) (hclear.2 d hd hdvalue)
    rw [← htarget]
    exact hc.1 d hd (fun hnone => hvalue (hsome.mpr hnone)) hdvalue

theorem Tells.unique {record : Cell} {member : Text × Value} {x y : Told}
    (hx : Tells room registry record s member x) (hy : Tells room registry record s member y) :
    x = y := by
  obtain ⟨e, t, he, hvalue, hwarning⟩ := hx
  obtain ⟨e', t', he', hvalue', hwarning'⟩ := hy
  cases he.symm.trans he'
  obtain ⟨v, w⟩ := x
  obtain ⟨v', w'⟩ := y
  dsimp only at hvalue hvalue' hwarning hwarning'
  rw [← hwarning, ← hwarning']
  congr 1
  generalize e.value = c at hvalue hvalue'
  cases hvalue with
  | none =>
    cases hvalue'
    rfl
  | some hcv =>
    cases hvalue' with
    | some hcv' => rw [hcv.unique hcv']

theorem Tells.warningOf {record : Cell} {member : Text × Value} {x : Told}
    (hx : Tells room registry record s member x) :
    warningOf room registry record s member = x.warning := by
  obtain ⟨e, t, he, -, hwarning⟩ := hx
  rw [Reshape.warningOf, he]
  exact hwarning

/-- All that a run with independent targets came to is told by one function. -/
theorem exists_tell {p : Progress} {mapping : Members} (hs : s.Closed)
    (hrecord : record.Standing s) (hfull : record.Full) (hpure : registry.Pure s.size)
    (hvalued : registry.Valued s)
    (hrun : (Progress.ofStore s).run room registry record.cell mapping = (none, p))
    (hc : p.evaluations.Pairwise Evaluation.Compatible) :
    ∃ tell : Text × Value → Told,
      (∀ member ∈ mapping, Tells room registry record.cell s member (tell member)) ∧
        mapping.Pairwise (Compatible tell) := by
  have htold := (Progress.kept_start s).forall_told hs hrecord hfull hpure hvalued hrun
    (show (Progress.ofStore s).evaluations ++ p.evaluations = p.evaluations from rfl) hc
      fun e _ _ => Branches.clear_nil _
  choose! tell htell using fun member (h : ∃ x, Tells room registry record.cell s member x) => h
  have hof : List.Forall₂
      (fun member e => Told.Of room registry record.cell s member e (tell member))
      mapping p.evaluations := htold.imp fun member e ⟨x, hx⟩ =>
    (hx.tells.unique (htell member ⟨x, hx.tells⟩)) ▸ hx
  refine ⟨tell, fun member hm => ?_, ?_⟩
  · obtain ⟨e, -, he⟩ := exists_of_mem_right hof.flip hm
    exact he.tells
  · -- Both conditions look at the targets and at who comes to a value.
    have hsame : p.evaluations.map (fun e => (e.target, e.value.isSome)) =
        mapping.map fun member => (member.1, (tell member).value.isSome) :=
      map_eq_of_forall₂ (fun member e he => by
        have hvalue := he.value
        rw [he.target]
        cases hv : e.value <;> cases hx : (tell member).value <;> simp [hv, hx] at hvalue ⊢) hof
    let R : Text × Bool → Text × Bool → Prop := fun a b =>
      a.2 = true → b.2 = true → Path.Independent a.1 b.1
    have hR : (mapping.map fun member => (member.1, (tell member).value.isSome)).Pairwise R := by
      rw [← hsame, List.pairwise_map]
      refine hc.imp fun hcompatible ha hb => hcompatible ?_ ?_
      · exact Option.isSome_iff_ne_none.mp ha
      · exact Option.isSome_iff_ne_none.mp hb
    exact (List.pairwise_map.mp hR).imp fun h ha hb =>
      h (Option.isSome_iff_ne_none.mpr ha) (Option.isSome_iff_ne_none.mpr hb)

/-- The order of independent members shows in the order of keys and of warnings alone. -/
theorem mapRecord_perm {record : Cell} {r : Value} {mapping other : Members} {p : Progress}
    (hs : s.Closed) (hrecord : s.Shows record r) (hpure : registry.Pure s.size)
    (hvalued : registry.Valued s)
    (hrun : (Progress.ofStore s).run room registry record mapping = (none, p))
    (hc : p.evaluations.Pairwise Evaluation.Compatible) (hp : mapping.Perm other) :
    let o := mapRecord room registry mapping record s
    let o' := mapRecord room registry other record s
    ∃ mapped mapped' v v', o.result = .ok mapped ∧ o'.result = .ok mapped' ∧
      o.store.Shows mapped.output v ∧ o'.store.Shows mapped'.output v' ∧ Alike v v' ∧
      mapped.warnings = mapping.filterMap (warningOf room registry record s) ∧
      mapped'.warnings = other.filterMap (warningOf room registry record s) ∧
      mapped.warnings.Perm mapped'.warnings := by
  obtain ⟨t, ht, hfull, rfl, -⟩ := hrecord
  have hhas : s.Has t.cell := ht.has hfull
  obtain ⟨tell, hall, hpair⟩ := exists_tell hs ht hfull hpure hvalued hrun hc
  -- Any order comes to what is told.
  have hends : ∀ {order : Members}, mapping.Perm order → ∃ mapped,
      (mapRecord room registry order t.cell s).result = .ok mapped ∧
      (mapRecord room registry order t.cell s).store.Shows mapped.output
        (.obj (written tell [] order)) ∧
      mapped.warnings = order.filterMap (warningOf room registry t.cell s) := by
    intro order horder
    have hall' : ∀ member ∈ order, Tells room registry t.cell s member (tell member) :=
      fun member hm => hall member (horder.mem_iff.mpr hm)
    have hpair' := (horder.pairwise_iff fun h => Compatible.symm h).mp hpair
    obtain ⟨q, us, hq, hkept, hvalues, hwarnings⟩ := (Progress.kept_start s).run hs hhas hpure hall'
      (fun member _ _ => Branches.clear_nil _) hpair'
    refine ⟨_, by rw [mapRecord_of_run hq], ?_, ?_⟩
    · rw [mapRecord_of_run hq]
      have hshows := hkept.shows
      rw [hvalues] at hshows
      exact hshows
    · refine hwarnings.trans ?_
      exact List.filterMap_congr fun member hm => (hall' member hm).warningOf.symm
  obtain ⟨mapped, hmapped, hshows, hwarnings⟩ := hends (.refl mapping)
  obtain ⟨mapped', hmapped', hshows', hwarnings'⟩ := hends hp
  refine ⟨mapped, mapped', _, _, hmapped, hmapped', hshows, hshows', written_perm hp hpair [],
    hwarnings, hwarnings', ?_⟩
  rw [hwarnings, hwarnings']
  exact hp.filterMap _

/-- Two fields of one carrier change places, and so do two members that fail, and two that share a
part of the record. -/
theorem mapRecord_perm_carrier :
    let registry := Registry.ofList [("same", .function .same)]
    let call (name : String) : Value := .obj [("$transform", .str name), ("$path", .str "p")]
    let mapping : Members := [("m[].a", .str "=x"), ("f", call "no"), ("h", call "same"),
      ("m[].b", .str "p.q"), ("f.g", call "none"), ("k", call "same")]
    let r := load (.obj [("p", .obj [("q", .obj [])])]) {}
    let o := mapRecord 100 registry mapping r.1 r.2
    let o' := mapRecord 100 registry mapping.reverse r.1 r.2
    ∃ mapped mapped' v v', o.result = .ok mapped ∧ o'.result = .ok mapped' ∧
      o.store.Shows mapped.output v ∧ o'.store.Shows mapped'.output v' ∧ Alike v v' ∧
      mapped.warnings = mapped'.warnings.reverse := by
  intro registry call mapping r
  obtain ⟨hclosed, -⟩ := closed_load (.obj [("p", .obj [("q", .obj [])])]) Store.closed_empty
  have hrecord := shows_load (.obj [("p", .obj [("q", .obj [])])]) {}
  have hsame : ∀ q ∈ [(("same" : Text), Registered.function .same)],
      Transform.Pure r.2.size q.2.call ∧ q.2.call.Valued r.2 := by
    simp only [List.forall_mem_cons, List.not_mem_nil, false_imp_iff, implies_true, and_true]
    exact ⟨Transform.pure_same, Transform.valued_same r.2⟩
  have hreturns : (mapRecord 100 registry mapping r.1 r.2).result.isOk = true := by decide +kernel
  obtain ⟨_, hresult⟩ := Traverse.exists_ok_of_isOk hreturns
  obtain ⟨p, hrun, -⟩ := mapRecord_ok_iff.mp hresult
  have hc : p.evaluations.Pairwise Evaluation.Compatible := by
    have hp : p = ((Progress.ofStore r.2).run 100 registry r.1 mapping).2 := by rw [hrun]
    rw [hp]
    decide +kernel
  obtain ⟨mapped, mapped', v, v', hmapped, hmapped', hv, hv', halike, hwarnings, hwarnings', -⟩ :=
    mapRecord_perm hclosed hrecord (Registry.pure_ofList fun q hq => (hsame q hq).1)
      (Registry.valued_ofList fun q hq => (hsame q hq).2) hrun hc (List.reverse_perm mapping).symm
  refine ⟨mapped, mapped', v, v', hmapped, hmapped', hv, hv', halike, ?_⟩
  rw [hwarnings, hwarnings', List.filterMap_reverse, List.reverse_reverse]

end Reshape

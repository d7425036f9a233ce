import Reshape.Proofs.Mapping.Told
import Reshape.Proofs.Path.Fields

/-!
# What a mapping keeps

A value that a mapping writes to a path of keys stays there if whatever is written after it goes to
independent targets, and reading the path in the output gives it back (`readText_mapRecord_iff`).
Only a target with an index of too many digits can be written and not read. Transforms may answer
with parts of the record and with nodes that they keep, as long as they change none themselves
(`Registry.Discreet`) and no later target leads into such an answer (`Registry.Unentered`): a write
there could be seen at other targets as well. Answers with new nodes can be entered, as the
copies of what was read can. So what an entry comes to is written as a whole if it may be shared,
and with its nodes if it is not (`Progress.Kept.exists_seed`).
-/

namespace Reshape

namespace Registry

variable {registry : Registry} {member : Text × Value} {e : Evaluation}

/-- An entry comes to a container that may be shared: a transform answered with it that does not
always answer with new nodes. -/
def Shared (registry : Registry) (x : (Text × Value) × Evaluation) : Prop :=
  (∃ a, x.2.value = some (.ref a)) ∧
    ∃ d found, Entry.ofValue x.1.2 = .directive d ∧ registry.lookup d.name = some found ∧
      ¬ found.call.Fresh

theorem not_shared_of_source {source : Source} (h : Entry.ofValue member.2 = .source source) :
    ¬ registry.Shared (member, e) := by
  rintro ⟨-, d, found, hd, -⟩
  cases h.symm.trans hd

theorem not_shared_of_fresh {d : Directive} {found : Registered}
    (h : Entry.ofValue member.2 = .directive d) (hl : registry.lookup d.name = some found)
    (hfresh : found.call.Fresh) : ¬ registry.Shared (member, e) := by
  rintro ⟨-, d', found', hd, hl', hnot⟩
  cases h.symm.trans hd
  cases hl.symm.trans hl'
  exact hnot hfresh

/-- The later of two entries writes nothing into what the earlier one came to, if that may be
shared. -/
def Unentered (registry : Registry) (x y : (Text × Value) × Evaluation) : Prop :=
  registry.Shared x → y.2.value ≠ none → ¬ Path.LeadsInto y.1.1 x.1.1

end Registry

namespace Progress.Kept

variable {room : Nat} {registry : Registry} {record : Tree} {s t : Store} {p q : Progress}
  {ts : Branches} {member : Text × Value} {mapping : Members} {e : Evaluation}

theorem standing (h : p.Kept s ts) (hrecord : record.Standing s) :
    record.Standing p.canvas.store :=
  hrecord.of_agree fun a _ ha hn => (h.same a (hrecord.lt_size ha)).trans hn

/-- What leads to nodes of the start and to new ones only avoids the nodes of the output. -/
theorem avoids (h : p.Kept s ts) {a : Nat} (ha : a < s.size ∨ p.canvas.store.size ≤ a) :
    a ∉ ts.places := by
  intro hmem
  rcases ha with ha | ha
  · exact Nat.not_le.mpr ha (h.own a hmem)
  · exact Nat.not_le.mpr (h.stands.lt_size hmem) ha

/-- What an entry comes to can be written, and later entered if it is not shared. -/
theorem exists_seed (h : p.Kept s ts) (hdiscreet : registry.Discreet s)
    (hrecord : record.Standing s) (hfull : record.Full) (hnodup : record.places.Nodup)
    (he : (evaluateMember room registry record.cell member).within p.canvas.store = (.ok e, t))
    {c : Cell} (hc : e.value = some c) :
    ∃ x : Seed, x.Suits p.canvas.store t ts.places ∧ x.tree.cell = c ∧ t.Shows c x.tree.value ∧
      (¬ registry.Shared (member, e) → x.Full) := by
  have hstanding := h.standing hrecord
  -- A tree of new nodes is written with them.
  have hliving : ∀ u : Tree, u.Standing t → u.Full → u.cell = c → u.places.Nodup →
      (∀ a ∈ u.places, p.canvas.store.size ≤ a) →
      ∃ x : Seed, x.Suits p.canvas.store t ts.places ∧ x.tree.cell = c ∧ t.Shows c x.tree.value ∧
        (¬ registry.Shared (member, e) → x.Full) :=
    fun u hu hufull hcell hunodup hnew =>
      ⟨.living u, Seed.suits_living hu hufull hunodup hnew fun a ha => h.stands.lt_size ha, hcell,
        ⟨u, hu, hufull, hcell, rfl⟩, fun _ => Seed.full_living hufull⟩
  cases hm : Entry.ofValue member.2 with
  | source source =>
    rw [evaluateMember_source hm] at he
    split at he
    · next value t' hproduce =>
      cases he
      cases hc
      obtain ⟨u, hu, hufull, hcell, -, hnew, hunodup⟩ :=
        exists_tree_produce hstanding hfull hproduce
      exact hliving u hu hufull hcell (hunodup hnodup) hnew
    · cases he
  | directive d =>
    rw [evaluateMember_directive hm, Directive.evaluate_ok_iff] at he
    rcases he with ⟨-, -, m, -, rfl⟩ | ⟨err, m, -, -, rfl⟩ | ⟨value, hcalls, rfl⟩
    · cases hc
    · cases hc
    · cases hc
      obtain ⟨found, args, u, hl, hargs, hcall⟩ := hcalls
      have hgrows := arguments_grows (room - 1 - 3) record.cell d p.canvas.store
      rw [hargs] at hgrows
      by_cases hfresh : found.call.Fresh
      · have hanswer := hfresh.fresh (room - 1) args u c
        rw [hcall] at hanswer
        obtain ⟨w, hw, hwfull, hcell, hwnodup, hnew⟩ := hanswer rfl
        exact hliving w hw hwfull hcell hwnodup fun a ha => Nat.le_trans hgrows.size_le (hnew a ha)
      · obtain ⟨us, rfl, hus⟩ := exists_trees_arguments hstanding hfull hargs
        have hanswer := (hdiscreet.lookup hl).answer (room - 1) us u
          (fun a ha => (hgrows.get?_eq (Nat.lt_of_lt_of_le ha h.size_le)).trans (h.same a ha))
          (fun w hw => ⟨(hus w hw).1, (hus w hw).2.1⟩) c
        rw [hcall] at hanswer
        obtain ⟨w, hw, hwfull, rfl, hplaces⟩ := hanswer rfl
        have hout : ∀ a ∈ w.places, a ∉ ts.places := fun a ha => by
          rcases hplaces a ha with hlt | ⟨v, hv, hav⟩ | hle
          · exact h.avoids (.inl hlt)
          · exact h.avoids (((hus v hv).2.2 a hav).imp_left hrecord.lt_size)
          · exact h.avoids (.inr (Nat.le_trans hgrows.size_le hle))
        refine ⟨.frozen w, Seed.suits_frozen _ hw hwfull hout, rfl, ?_, fun hshared => ?_⟩
        · rw [Seed.frozen, Tree.value_leaf]
          exact ⟨w, hw, hwfull, rfl, rfl⟩
        · exact Seed.full_frozen hwfull fun a ha =>
            hshared ⟨⟨a, congrArg some ha⟩, d, found, hm, hl, hfresh⟩

/-- A step puts the value of its entry where its target says. The way to another target stays clear
if it does not lead into what is shared. -/
theorem put (h : p.Kept s ts) (hdiscreet : registry.Discreet s) (hrecord : record.Standing s)
    (hfull : record.Full) (hnodup : record.places.Nodup)
    (he : (evaluateMember room registry record.cell member).within p.canvas.store = (.ok e, t))
    (hclear : e.value ≠ none → Branches.Clear (Target.ofText member.1) ts) :
    ∃ us v, (p.add t e).Kept s us ∧ us.values = writeOptional ts.values member.1 v ∧
      Option.Rel t.Shows e.value v ∧
      ∀ text, (registry.Shared (member, e) → ¬ Path.LeadsInto text member.1) →
        Branches.Clear (Target.ofText text) ts → Branches.Clear (Target.ofText text) us := by
  have hext := evaluateMember_grows hdiscreet.grows room record.cell member p.canvas.store
  rw [he] at hext
  have htarget := evaluateMember_target he
  have hseed := @exists_seed room registry record s t p ts member e h hdiscreet hrecord hfull hnodup
    he
  obtain ⟨target, value, warning⟩ := e
  obtain rfl : target = member.1 := htarget
  cases value with
  | none => exact ⟨ts, none, h.grow hext _, rfl, .none, fun _ _ hother => hother⟩
  | some c =>
    obtain ⟨x, hsuits, rfl, hshows, hunshared⟩ := hseed rfl
    have htarget := hclear nofun
    exact ⟨_, some x.tree.value, h.write hext hsuits member.1 htarget _,
      Branches.values_plant hsuits.sound _ htarget, .some hshows, fun text hout hother =>
        Branches.clear_plant hother fun hinto => hunshared fun hshared => hout hshared hinto⟩

/-- A run writes a value for each evaluation that came to one. -/
theorem puts (h : p.Kept s ts) (hdiscreet : registry.Discreet s) (hrecord : record.Standing s)
    (hfull : record.Full) (hnodup : record.places.Nodup) {es : List Evaluation}
    (hrun : p.run room registry record.cell mapping = (none, q))
    (hes : q.evaluations = p.evaluations ++ es)
    (hun : (mapping.zip es).Pairwise registry.Unentered)
    (hclear : ∀ x ∈ mapping.zip es, x.2.value ≠ none → Branches.Clear (Target.ofText x.1.1) ts) :
    ∃ (us : Branches) (ws : List (Text × Option Value)), q.Kept s us ∧
      us.values = ws.foldl (fun ms w => writeOptional ms w.1 w.2) ts.values ∧
      List.Forall₂ (fun e w => w.1 = e.target ∧ (w.2 ≠ none → e.value ≠ none)) es ws ∧
      ∀ text, (∀ x ∈ mapping.zip es, registry.Shared x → ¬ Path.LeadsInto text x.1.1) →
        Branches.Clear (Target.ofText text) ts → Branches.Clear (Target.ofText text) us := by
  induction mapping generalizing p ts es with
  | nil =>
    cases hrun
    rw [List.self_eq_append_right] at hes
    subst hes
    exact ⟨ts, [], h, rfl, .nil, fun _ _ hother => hother⟩
  | cons member rest ih =>
    obtain ⟨e, t, he, hrest⟩ := run_cons_iff.mp hrun
    obtain ⟨es', hes', -⟩ := evaluations_run hrest
    obtain rfl : es = e :: es' := by
      rw [hes', Progress.add, List.append_assoc] at hes
      exact (List.append_cancel_left hes).symm
    rw [List.zip_cons_cons, List.pairwise_cons] at hun
    rw [List.zip_cons_cons, List.forall_mem_cons] at hclear
    obtain ⟨us, v, hkept, hvalues, hshows, hway⟩ :=
      h.put hdiscreet hrecord hfull hnodup he hclear.1
    obtain ⟨us', ws, hkept', hvalues', hws, hway'⟩ := ih hkept hrest hes' hun.2 fun x hx hsome =>
      hway x.1.1 (fun hshared => hun.1 x hx hshared hsome) (hclear.2 x hx hsome)
    refine ⟨us', (member.1, v) :: ws, hkept', ?_, .cons ⟨?_, fun hsome hnone => ?_⟩ hws,
      fun text hout hother => ?_⟩
    · rw [hvalues', hvalues, List.foldl_cons]
    · exact (evaluateMember_target he).symm
    · rw [hnone] at hshows
      cases hshows
      exact hsome rfl
    · rw [List.zip_cons_cons, List.forall_mem_cons] at hout
      exact hway' text hout.2 (hway text hout.1 hother)

end Progress.Kept

/-- Writes to independent targets keep what keys lead to. -/
theorem along_foldl_writeOptional {text : Text}
    (hm : ∀ piece ∈ Path.pieces text, ¬ Segment.Marked piece)
    {written : List (Text × Option Value)}
    (h : ∀ w ∈ written, w.2 ≠ none → Path.Independent w.1 text) (ms : Members) :
    (Value.obj (written.foldl (fun ms w => writeOptional ms w.1 w.2) ms)).along (Path.pieces text) =
      (Value.obj ms).along (Path.pieces text) := by
  induction written generalizing ms with
  | nil => rfl
  | cons w rest ih =>
    rw [List.forall_mem_cons] at h
    rw [List.foldl_cons, ih h.2]
    obtain ⟨target, value⟩ := w
    cases value with
    | none => rfl
    | some v =>
      have hapart := Path.independent_iff_apart.mp (h.1 nofun)
      rw [Target.ofText_fields hm] at hapart
      exact Target.along_write_of_apart hapart

variable {room : Nat} {registry : Registry} {record : Tree} {s t : Store} {p q : Progress}
  {before after : Members} {text : Text} {entry v : Value} {e : Evaluation} {es : List Evaluation}
  {c : Cell}

/-- What is written to keys and to nothing else later stands there at the end. -/
theorem Progress.exists_along (hrecord : record.Standing s) (hfull : record.Full)
    (hnodup : record.places.Nodup) (hdiscreet : registry.Discreet s)
    (hbefore : (Progress.ofStore s).run room registry record.cell before = (none, p))
    (he : (evaluateMember room registry record.cell (text, entry)).within p.canvas.store =
      (.ok e, t))
    (hc : e.value = some c) (hv : t.Shows c v)
    (hafter : (p.add t e).run room registry record.cell after = (none, q))
    (hun : ((before ++ (text, entry) :: after).zip q.evaluations).Pairwise registry.Unentered)
    (hes : q.evaluations = p.evaluations ++ e :: es)
    (hlater : ∀ f ∈ es, f.value ≠ none → Path.Independent f.target text)
    (hm : ∀ piece ∈ Path.pieces text, ¬ Segment.Marked piece) :
    ∃ us, q.Kept s us ∧ (Value.obj us.values).along (Path.pieces text) = some v := by
  obtain ⟨es₀, hes₀, htargets⟩ := evaluations_run hbefore
  have hlength : before.length = p.evaluations.length := by
    simpa [hes₀, ofStore] using (congrArg List.length htargets).symm
  rw [hes, List.zip_append hlength, List.zip_cons_cons, List.pairwise_append, List.pairwise_cons]
    at hun
  obtain ⟨hun₀, ⟨hun₁, hun₂⟩, hacross⟩ := hun
  -- The way to what is written now and later leads into nothing that is shared.
  obtain ⟨ts, -, hkept, -, -, hway⟩ := (kept_start s).puts hdiscreet hrecord hfull hnodup hbefore
    rfl hun₀ fun _ _ _ => Branches.clear_nil _
  have hclear : ∀ y ∈ ((text, entry), e) :: after.zip es, y.2.value ≠ none →
      Branches.Clear (Target.ofText y.1.1) ts := fun y hy hsome =>
    hway y.1.1 (fun x hx hshared => hacross x hx y hy hshared hsome) (Branches.clear_nil _)
  rw [List.forall_mem_cons] at hclear
  obtain ⟨us, w, hkept, hvalues, hshows, hway'⟩ :=
    hkept.put hdiscreet hrecord hfull hnodup he hclear.1
  obtain ⟨us', ws, hkept, hvalues', hws, -⟩ := hkept.puts hdiscreet hrecord hfull hnodup hafter
    (by rw [hes, List.append_cons]; rfl) hun₂ fun y hy hsome =>
      hway' y.1.1 (fun hshared => hun₁ y hy hshared hsome) (hclear.2 y hy hsome)
  refine ⟨us', hkept, ?_⟩
  -- The value stands at the keys after the step, and the rest of the run keeps it there.
  obtain rfl : w = some v := by
    rw [hc] at hshows
    cases hshows with
    | some hw => rw [hw.unique hv]
  rw [hvalues', along_foldl_writeOptional hm fun w hw hsome => ?_, hvalues, writeOptional,
    writeText, Target.ofText_fields hm]
  · exact Target.along_write_self (List.splitOn_ne_nil _ _)
  · obtain ⟨f, hf, htarget, hvalue⟩ := exists_of_mem_right hws hw
    rw [htarget]
    exact hlater f hf (hvalue hsome)

/-- What is written to a path of keys and to nothing else later is read back from there. -/
theorem readText_mapRecord_iff (hrecord : record.Standing s) (hfull : record.Full)
    (hnodup : record.places.Nodup) (hdiscreet : registry.Discreet s)
    (hbefore : (Progress.ofStore s).run room registry record.cell before = (none, p))
    (he : (evaluateMember room registry record.cell (text, entry)).within p.canvas.store =
      (.ok e, t))
    (hc : e.value = some c) (hv : t.Shows c v)
    (hafter : (p.add t e).run room registry record.cell after = (none, q))
    (hun : ((before ++ (text, entry) :: after).zip q.evaluations).Pairwise registry.Unentered)
    (hes : q.evaluations = p.evaluations ++ e :: es)
    (hlater : ∀ f ∈ es, f.value ≠ none → Path.Independent f.target text) (ht : text ≠ [])
    (hm : ∀ piece ∈ Path.pieces text, ¬ Segment.Marked piece)
    (hi : ∀ piece ∈ Path.pieces text, ∀ key n,
      Segment.ofText piece ≠ .ok { key, access := .index n }) :
    let o := mapRecord room registry (before ++ (text, entry) :: after) record.cell s
    ∃ mapped, o.result = .ok mapped ∧
      ((∃ d u, (Run.read mapped.output text).within o.store = (.ok (some d), u) ∧ u.Shows d v) ↔
        ∀ piece ∈ Path.pieces text, ¬ Segment.Overlong piece) := by
  intro o
  obtain ⟨us, hkept, halong⟩ := Progress.exists_along hrecord hfull hnodup hdiscreet hbefore he hc
    hv hafter hun hes hlater hm
  have hrun :
    (Progress.ofStore s).run room registry record.cell (before ++ (text, entry) :: after) =
      (none, q) :=
    Progress.run_append_iff.mpr ⟨p, hbefore, Progress.run_cons_iff.mpr ⟨e, t, he, hafter⟩⟩
  have ho : o = _ := mapRecord_of_run hrun
  rw [ho]
  refine ⟨_, rfl,
    (exists_read_shows_iff hkept.shows).trans ⟨fun hread piece hp ho => ?_, fun ho => ?_⟩⟩
  · obtain ⟨limit, hlimit⟩ := Path.readText_overlong (.obj us.values) hp ho
    rw [hlimit] at hread
    cases hread
  · refine Path.readText_fields ht (fun piece hp => ⟨hm piece hp, fun hindexed => ?_⟩) halong
    obtain ⟨key, n, hread⟩ := hindexed.ofText (ho piece hp)
    exact hi piece hp key n hread

/-- A list takes the place of a text, and carriers, appended values, a name and the record itself,
which is written twice, come beside it. -/
theorem readText_mapRecord_beside :
    let registry := Registry.ofList [("same", .function .same),
      ("countryFromISO", .function (Country.transform territoryNames))]
    let call (name path : String) : Value := .obj [("$transform", .str name), ("$path", .str path)]
    let before : Members := [("a", .str "=s"), ("b", .str "p"), ("f", call "same" "o")]
    let member : Text × Value := ("a.b", .str "p")
    let after : Members := [("a.c[].d", .str "=y"), ("a.c[].e", .str "=w"), ("b[]", .str "=z"),
      ("d", call "countryFromISO" "c"), ("d.e", .str "=x"), ("g", call "same" "o")]
    let r := load (.obj [("p", .list [.int 1]), ("c", .str "FR"), ("o", .obj [])]) {}
    let o := mapRecord 100 registry (before ++ member :: after) r.1 r.2
    ∃ mapped, o.result = .ok mapped ∧ ∃ d u,
      (Run.read mapped.output "a.b").within o.store = (.ok (some d), u) ∧
        u.Shows d (.list [.int 1]) := by
  intro registry call before member after r
  let v : Value := .obj [("p", .list [.int 1]), ("c", .str "FR"), ("o", .obj [])]
  obtain ⟨record, hrecord, hfull, hcell, -, hgains⟩ := exists_tree_load v {}
  have hreturns :
    (mapRecord 100 registry (before ++ member :: after) r.1 r.2).result.isOk = true := by
    decide +kernel
  obtain ⟨_, hresult⟩ := Traverse.exists_ok_of_isOk hreturns
  obtain ⟨q, hrun, -⟩ := mapRecord_ok_iff.mp hresult
  obtain ⟨p, hbefore, hrest⟩ := Progress.run_append_iff.mp hrun
  obtain ⟨e, t, he, hafter⟩ := Progress.run_cons_iff.mp hrest
  obtain ⟨es, hes, htargets⟩ := Progress.evaluations_run hafter
  have hp : p = ((Progress.ofStore r.2).run 100 registry r.1 before).2 := by rw [hbefore]
  have ht : t = ((evaluateMember 100 registry r.1 member).within p.canvas.store).2 := by rw [he]
  have hc : e.value = some (.ref 4) := by
    have hvalue : ((evaluateMember 100 registry r.1 member).within p.canvas.store).1.toOption.map
        (·.value) = some (some (.ref 4)) := by
      rw [hp]
      decide +kernel
    rw [he] at hvalue
    exact Option.some.inj hvalue
  have hstands : t.get? 4 = some (.list [.scalar (.int 1)]) := by
    rw [ht, hp]
    decide +kernel
  have hshows : t.Shows (.ref 4) (.list [.int 1]) := by
    refine ⟨.list 4 [.leaf (.scalar (.int 1)) (.int 1)], ?_, ?_, rfl, ?_⟩
    · simpa [Tree.standing_list] using hstands
    · simp only [Tree.full_list, List.forall_mem_singleton, Tree.full_leaf]
      exact ⟨.int 1, rfl, rfl⟩
    · simp
  have hdiscreet : registry.Discreet r.2 := by
    refine Registry.discreet_ofList ?_
    rw [List.forall_mem_cons, List.forall_mem_singleton]
    exact ⟨Transform.pure_same.discreet (closed_load v Store.closed_empty).1
      (Transform.valued_same r.2), (Country.fresh_transform territoryNames).discreet r.2⟩
  -- Only what `same` answers with is shared, and nothing is written into that.
  have hshared : ∀ m ∈ before ++ member :: after, ∀ e, registry.Shared (m, e) →
      m.1 = "f" ∨ m.1 = "g" := by
    simp only [before, member, after, List.cons_append, List.nil_append, List.forall_mem_cons,
      List.not_mem_nil, false_imp_iff, true_or, or_true, implies_true, and_true, true_and]
    have hsource : ∀ {m : Text × Value} {source e}, Entry.ofValue m.2 = .source source →
        registry.Shared (m, e) → m.1 = "f" ∨ m.1 = "g" :=
      fun hm h => (Registry.not_shared_of_source hm h).elim
    refine ⟨fun _ => hsource rfl, fun _ => hsource rfl, fun _ => hsource rfl, fun _ => hsource rfl,
      fun _ => hsource rfl, fun _ => hsource rfl, fun _ h => ?_, fun _ => hsource rfl⟩
    let found := Registered.function (Country.transform territoryNames)
    have hname : registry.lookup (.str "countryFromISO") = some found := rfl
    have hfresh : found.call.Fresh := Country.fresh_transform territoryNames
    exact (Registry.not_shared_of_fresh rfl hname hfresh h).elim
  have hout : ∀ target ∈ (before ++ member :: after).map Prod.fst,
      ¬ Path.LeadsInto target "f" ∧ ¬ Path.LeadsInto target "g" := by decide
  have hun : ((before ++ member :: after).zip q.evaluations).Pairwise registry.Unentered :=
    List.pairwise_of_forall_mem_list fun x hx y hy hx' _ => by
      have hy' := hout _ (List.mem_map_of_mem (List.of_mem_zip hy).1)
      rcases hshared x.1 (List.of_mem_zip hx).1 x.2 hx' with h | h
      · exact h ▸ hy'.1
      · exact h ▸ hy'.2
  have hlater : ∀ target ∈ after.map Prod.fst, Path.Independent target "a.b" := by decide
  have hpieces : ∀ piece ∈ Path.pieces "a.b", Segment.IsField piece := by decide
  rw [← hcell] at hbefore he hafter
  obtain ⟨mapped, hmapped, hread⟩ := readText_mapRecord_iff hrecord hfull hgains.nodup
    hdiscreet hbefore he hc hshows hafter hun
      (by rw [hes, Progress.add, List.append_assoc]; rfl)
    (fun f hf _ => hlater _ (htargets ▸ List.mem_map_of_mem hf)) (by decide)
    (fun piece hp => (hpieces piece hp).1) fun piece hp key n hindex => by
      rw [Segment.ofText_eq_plain (hpieces piece hp).1 (hpieces piece hp).2] at hindex
      cases hindex
  rw [hcell] at hmapped hread
  exact ⟨mapped, hmapped, hread.mpr (by decide)⟩

/-- If a transform answers with a part of the record, a target can lead into what is under another
one. -/
example :
    let call : Value := .obj [("$transform", .str "same"), ("$path", .str "x")]
    let r := load (.obj [("x", .obj [("k", .int 1)])]) {}
    let o := mapRecord 100 (.ofList [("same", .function .same)])
      [("a", call), ("b", call), ("b.k", .str "=new")] r.1 r.2
    o.store.get? 2 = some (.obj [("a", .ref 0), ("b", .ref 0)]) ∧
      o.store.get? 0 = some (.obj [("k", .scalar (.str "new"))]) := by decide +kernel

/-- A target with an index of too many digits is written as a key, but cannot be read at all. -/
theorem readText_mapRecord_overlong :
    let target := Segment.overlongIndex
    let o := mapRecord 1000 .empty [(target, .str "=x")] (.scalar .null) {}
    ∃ mapped, o.result = .ok mapped ∧ o.store.Shows mapped.output (.obj [(target, .str "x")]) ∧
      target ≠ [] ∧ (∀ piece ∈ Path.pieces target, ¬ Segment.Marked piece) ∧
      (∀ piece ∈ Path.pieces target, ∀ key n,
        Segment.ofText piece ≠ .ok { key, access := .index n }) ∧
      ∃ limit, (Run.read mapped.output target).within o.store =
        (.error (.tooManyDigits limit), o.store) := by
  intro target
  have hpieces : Path.pieces target = [target] := Path.pieces_overlongIndex
  have ho : Segment.Overlong target := Segment.overlong_overlongIndex
  have hne : target ≠ [] := by simp [target, Segment.overlongIndex]
  clear_value target
  have hm : ¬ Segment.Marked target := ho.indexed.not_marked
  let output : Tree := .obj 0 [(target, .leaf (.scalar (.str "x")) (.str "x"))]
  have hwrite : Canvas.writeText { store := {} } target (.scalar (.str "x")) =
      { members := [(target, .scalar (.str "x"))], store := {} } := by
    rw [Canvas.writeText, Target.ofText, hpieces, List.map_singleton, Slot.ofText_field hm]
    rfl
  have hrun : (Progress.ofStore {}).run 1000 .empty (.scalar .null) [(target, .str "=x")] =
      (none, (Progress.ofStore {}).add {} { target, value := some (.scalar (.str "x")) }) := rfl
  intro o
  have ho' : o.result = .ok { output := .ref 0, warnings := [] } ∧
      o.store = Store.push {} (.obj [(target, .scalar (.str "x"))]) := by
    dsimp only [o]
    rw [mapRecord_of_run hrun, Progress.add, Canvas.writeOptional]
    change Except.ok (Mapped.mk (.ref (Canvas.writeText { store := {} } target _).store.size) []) =
      _ ∧ Store.push (Canvas.writeText { store := {} } target _).store
        (.obj (Canvas.writeText { store := {} } target _).members) = _
    rw [hwrite]
    exact ⟨rfl, rfl⟩
  have hstands : output.Standing o.store := by
    rw [ho'.2, Tree.standing_obj]
    refine ⟨rfl, ?_⟩
    simp
  have hfull : output.Full := by
    simp only [output, Tree.full_obj, List.forall_mem_singleton, Tree.full_leaf]
    exact ⟨.str "x", rfl, rfl⟩
  have hvalue : output.value = .obj [(target, .str "x")] := by
    rw [Tree.value_obj, Branches.values]
    simp
  have hread := exists_tree_read hstands hfull target
  obtain ⟨limit, hlimit⟩ := Path.readText_overlong output.value (by rw [hpieces]; simp) ho
  rw [hlimit] at hread
  refine ⟨_, ho'.1, ⟨output, hstands, hfull, rfl, hvalue⟩, hne, ?_, ?_, limit, hread⟩
  · rw [hpieces]
    simpa using hm
  · obtain ⟨_, hrefused⟩ := Segment.exists_ofText_error_iff.mpr ho
    simp [hpieces, hrefused]

end Reshape

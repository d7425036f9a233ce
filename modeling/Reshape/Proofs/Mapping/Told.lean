import Reshape.Proofs.Mapping.Correspondence
import Reshape.Proofs.Store.Seeds
import Reshape.Proofs.Store.Shown
import Reshape.Proofs.Store.Writing

/-!
# What a mapping tells

What entries come to on a record on which nothing has been done yet, as values (`Tells`), and what
is then written, as writes of values (`written`). A run comes to this, even where what transforms
answer with is shared, as long as no target leads into what another entry has written
(`Progress.Kept.run`). For then a write changes only nodes that writing has made (`Progress.Kept`):
nodes of the record, and all that the entries came to, stay as they were. So what is still to be
read is what was there at the start, and what was written is never entered again.
-/

namespace Reshape

/-- What an entry comes to: a value, if there is one, and a warning. -/
structure Told where
  value : Option Value := none
  warning : Option Warning := none
  deriving Inhabited

/-- An entry comes to this in a store as it is. -/
def Tells (room : Nat) (registry : Registry) (record : Cell) (s : Store) (member : Text × Value)
    (x : Told) : Prop :=
  ∃ e t, (evaluateMember room registry record member).within s = (.ok e, t) ∧
    Option.Rel t.Shows e.value x.value ∧ e.warning = x.warning

/-- What is written when entries come to these things. -/
def written (tell : Text × Value → Told) (ms : Members) (mapping : Members) : Members :=
  mapping.foldl (fun ms member => writeOptional ms member.1 (tell member).value) ms

/-! ### Values are shown -/

section

variable {room : Nat} {registry : Registry} {record : Tree} {s t : Store} {c : Cell}

/-- What a source is written as is a tree at new places. -/
theorem exists_tree_produce (h : record.Standing s) (hfull : record.Full) {source : Source}
    (hc : (source.produce room record.cell).within s = (.ok (some c), t)) :
    ∃ u : Tree, u.Standing t ∧ u.Full ∧ u.cell = c ∧ s.Extends t ∧ (∀ a ∈ u.places, s.size ≤ a) ∧
      (record.places.Nodup → u.places.Nodup) := by
  cases source with
  | skip => cases hc
  | literal v =>
    obtain ⟨d, t', hload, hd⟩ := Run.within_bind_ok_iff.mp hc
    cases hd
    obtain ⟨u, hu, hufull, hcell, -, hgains⟩ := exists_tree_loaded hload
    exact ⟨u, hu, hufull, hcell, hgains.grown, hgains.new, fun _ => hgains.nodup⟩
  | path text =>
    obtain ⟨found, t', hread, hrest⟩ := Run.within_bind_ok_iff.mp hc
    have htree := exists_tree_read h hfull text
    split at htree
    · cases htree.symm.trans hread
    · cases htree.symm.trans hread
      cases hrest
    · obtain ⟨w, s', hw, hext, hstand, hwfull, -, hnodup, -⟩ := htree
      cases hw.symm.trans hread
      obtain ⟨d, t', hcopy, hd⟩ := Run.within_bind_ok_iff.mp hrest
      cases hd
      obtain ⟨u, hu, hufull, hcell, -, hext', hnew, hnodup'⟩ := exists_tree_copy hstand hwfull hcopy
      exact ⟨u, hu, hufull, hcell, hext.trans hext', fun a ha =>
        Nat.le_trans hext.size_le (hnew a ha), fun hrecord => hnodup' (hnodup hrecord)⟩

/-- What a source stands for is a tree of nodes of the record and new ones. -/
theorem exists_tree_resolve (h : record.Standing s) (hfull : record.Full) {source : Source}
    (hc : (source.resolve room record.cell).within s = (.ok (some c), t)) :
    ∃ u : Tree, u.Standing t ∧ u.Full ∧ u.cell = c ∧ ∀ a ∈ u.places, a ∈ record.places ∨
      s.size ≤ a := by
  cases source with
  | skip => cases hc
  | literal v =>
    obtain ⟨d, t', hload, hd⟩ := Run.within_bind_ok_iff.mp hc
    cases hd
    obtain ⟨u, hu, hufull, hcell, -, hgains⟩ := exists_tree_loaded hload
    exact ⟨u, hu, hufull, hcell, fun a ha => .inr (hgains.new a ha)⟩
  | path text =>
    have hread : (Run.read record.cell text).within s = (.ok (some c), t) := hc
    have htree := exists_tree_read h hfull text
    split at htree
    · cases htree.symm.trans hread
    · cases htree.symm.trans hread
    · obtain ⟨w, s', hw, -, hstand, hwfull, -, -, hplaces⟩ := htree
      cases hw.symm.trans hread
      exact ⟨w, hstand, hwfull, rfl, hplaces⟩

/-- The arguments of a call are trees of nodes of the record and new ones. -/
theorem exists_trees_arguments (h : record.Standing s) (hfull : record.Full) {d : Directive}
    {args : List Cell} (hargs : (d.arguments room record.cell).within s = (.ok args, t)) :
    ∃ us : List Tree, us.map Tree.cell = args ∧
      ∀ u ∈ us, u.Standing t ∧ u.Full ∧ ∀ a ∈ u.places, a ∈ record.places ∨ s.size ≤ a := by
  obtain ⟨name, sources⟩ := d
  induction sources generalizing s args with
  | nil =>
    cases hargs
    exact ⟨[], rfl, fun _ hu => nomatch hu⟩
  | cons source rest ih =>
    rw [Directive.arguments, List.mapM_cons] at hargs
    obtain ⟨c, t₁, hfirst, hmore⟩ := Run.within_bind_ok_iff.mp hargs
    obtain ⟨found, t₂, hresolve, hc⟩ := Run.within_bind_ok_iff.mp hfirst
    cases hc
    obtain ⟨cs, t₃, hrest, hcs⟩ := Run.within_bind_ok_iff.mp hmore
    cases hcs
    have hgrows := resolve_grows room record.cell source s
    rw [hresolve] at hgrows
    obtain ⟨us, rfl, hus⟩ := ih (h.mono hgrows) hrest
    have hgrows' := arguments_grows room record.cell ⟨name, rest⟩ t₁
    rw [Directive.arguments, hrest] at hgrows'
    have hus' : ∀ u ∈ us, u.Standing t ∧ u.Full ∧ ∀ a ∈ u.places, a ∈ record.places ∨ s.size ≤ a :=
      fun u hu => ⟨(hus u hu).1, (hus u hu).2.1, fun a ha =>
        ((hus u hu).2.2 a ha).imp_right (Nat.le_trans hgrows.size_le)⟩
    cases found with
    | none =>
      refine ⟨.leaf (.scalar .null) .null :: us, rfl, List.forall_mem_cons.mpr ⟨?_, hus'⟩⟩
      exact ⟨Tree.standing_leaf _ _ _, (Tree.full_leaf _ _).mpr ⟨.null, rfl, rfl⟩,
        fun a ha => by simp at ha⟩
    | some c =>
      obtain ⟨u, hu, hufull, rfl, hplaces⟩ := exists_tree_resolve h hfull hresolve
      exact ⟨u :: us, rfl, List.forall_mem_cons.mpr ⟨⟨hu.mono hgrows', hufull, hplaces⟩, hus'⟩⟩

/-- Where transforms have values as answers, an entry comes to a value, if to anything. -/
theorem exists_tells (hvalued : registry.Valued s) (h : record.Standing s) (hfull : record.Full)
    {member : Text × Value} {e : Evaluation}
    (he : (evaluateMember room registry record.cell member).within s = (.ok e, t)) :
    ∃ x, Tells room registry record.cell s member x ∧ x.warning = e.warning ∧
      (x.value = none ↔ e.value = none) := by
  have hshows : ∀ c, e.value = some c → ∃ v, t.Shows c v := by
    intro c hc
    cases hm : Entry.ofValue member.2 with
    | source source =>
      rw [evaluateMember_source hm] at he
      split at he
      · next value t' hproduce =>
        cases he
        cases hc
        obtain ⟨u, hu, hufull, hcell, -⟩ := exists_tree_produce h hfull hproduce
        exact ⟨_, u, hu, hufull, hcell, rfl⟩
      · cases he
    | directive d =>
      rw [evaluateMember_directive hm, Directive.evaluate_ok_iff] at he
      rcases he with ⟨-, -, m, -, rfl⟩ | ⟨err, m, -, -, rfl⟩ | ⟨value, hcalls, rfl⟩
      · cases hc
      · cases hc
      · cases hc
        obtain ⟨found, args, u, hl, hargs, hcall⟩ := hcalls
        have hgrows := arguments_grows (room - 1 - 3) record.cell d s
        rw [hargs] at hgrows
        obtain ⟨us, rfl, hus⟩ := exists_trees_arguments h hfull hargs
        have hshown : ∀ c ∈ us.map Tree.cell, ∃ v, u.Shows c v :=
          List.forall_mem_map.mpr fun w hw => ⟨_, w, (hus w hw).1, (hus w hw).2.1, rfl, rfl⟩
        have hanswer := hvalued.lookup hl (room - 1) _ u (fun a ha => hgrows.get?_eq ha) hshown c
        rw [hcall] at hanswer
        exact hanswer rfl
  cases hv : e.value with
  | none => exact ⟨{ warning := e.warning }, ⟨e, t, he, by rw [hv]; exact .none, rfl⟩, rfl, by simp⟩
  | some c =>
    obtain ⟨v, hcv⟩ := hshows c hv
    exact ⟨{ value := some v, warning := e.warning },
      ⟨e, t, he, by rw [hv]; exact .some hcv, rfl⟩, rfl, by simp⟩

end

/-- Two entries that both come to a value have independent targets. -/
def Compatible (tell : Text × Value → Told) (a b : Text × Value) : Prop :=
  (tell a).value ≠ none → (tell b).value ≠ none → Path.Independent a.1 b.1

/-- Every target of these entries leads into nothing that was written. -/
def ClearFor (tell : Text × Value → Told) (mapping : Members) (ts : Branches) : Prop :=
  ∀ member ∈ mapping, (tell member).value ≠ none → Branches.Clear (Target.ofText member.1) ts

/-- The branches stand in the output, and their nodes are all that was written into since `s`: what
they lead to beside them is as it was when it was written. -/
structure Progress.Kept (s : Store) (p : Progress) (ts : Branches) : Prop where
  stands : p.canvas.Stands .output ts
  nodup : ts.places.Nodup
  own : ∀ a ∈ ts.places, s.size ≤ a
  leaves : ∀ m ∈ ts, m.2.Leaves (p.canvas.store.ShowsApart ts.places)
  size_le : s.size ≤ p.canvas.store.size
  same : ∀ a, a < s.size → p.canvas.store.get? a = s.get? a

namespace Progress

variable {room : Nat} {registry : Registry} {record : Cell} {s : Store} {p q : Progress}
  {ts : Branches} {member : Text × Value} {mapping : Members} {x : Told}

theorem kept_start (s : Store) : (Progress.ofStore s).Kept s [] where
  stands := ⟨fun _ => rfl, nofun, nofun, nofun⟩
  nodup := .nil
  own := nofun
  leaves := nofun
  size_le := Nat.le_refl _
  same _ _ := rfl

namespace Kept

/-- What the output leads to is shown in it. -/
theorem shows (h : p.Kept s ts) :
    (p.canvas.store.push (.obj p.canvas.members)).Shows (.ref p.canvas.store.size)
      (.obj ts.values) := by
  have hroot : (Tree.obj p.canvas.store.size ts).Standing
      (p.canvas.store.push (.obj p.canvas.members)) := by
    rw [Tree.standing_obj, get?_push_self, h.stands.output rfl]
    exact ⟨rfl, fun m hm => (h.stands.standing m hm).mono (.push _ _)⟩
  have hshows := Tree.shows_of_leaves hroot (by
    rw [Tree.leaves_obj]
    refine fun m hm => (h.leaves m hm).mono fun c v hcv => ?_
    obtain ⟨t, ht, hfull, hcell, hvalue, -⟩ := hcv
    exact ⟨t, ht.mono (.push _ _), hfull, hcell, hvalue⟩)
  rw [Tree.cell_obj, Tree.value_obj] at hshows
  exact hshows

/-- Entries are evaluated as they are in the store at the start, and what they come to leads to
nodes of that store and to new ones only. -/
theorem evaluate (h : p.Kept s ts) (hs : s.Closed) (hrecord : s.Has record)
    (hpure : registry.Pure s.size) (room : Nat) (member : Text × Value) :
    ∃ C : Coupling s p.canvas.store, (∀ {a b}, C.rel a b → a = b ∧ a < s.size) ∧
      C.Ends Evaluation.Rel ((evaluateMember room registry record member).within s)
        ((evaluateMember room registry record member).within p.canvas.store) := by
  let C : Coupling s p.canvas.store := (Coupling.self hs).transfer (fun _ _ _ => rfl)
    fun a b hab => h.same b (hab.1 ▸ hab.2)
  exact ⟨C, fun hab => hab, evaluateMember_ends hpure C (fun a ha => ⟨rfl, ha⟩) member
    fun text _ => C.readsAlike (Coupling.cell_self hs hrecord) text⟩

/-- What is told is what an entry comes to when its turn comes. -/
theorem exists_told (h : p.Kept s ts) (hs : s.Closed) (hrecord : s.Has record)
    (hpure : registry.Pure s.size) (hx : Tells room registry record s member x) :
    ∃ e t, (evaluateMember room registry record member).within p.canvas.store = (.ok e, t) ∧
      p.canvas.store.Extends t ∧ e.warning = x.warning ∧
      (e.value = none ∧ x.value = none ∨
        ∃ u : Tree, e.value = some u.cell ∧ x.value = some u.value ∧ u.Standing t ∧ u.Full ∧
          ∀ a ∈ u.places, a ∉ ts.places) := by
  obtain ⟨e₀, t₀, he₀, hshows, hwarning⟩ := hx
  obtain ⟨C, hC, hends⟩ := h.evaluate hs hrecord hpure _ member
  obtain ⟨e, t, he, D, hstep, hrel⟩ := hends.exists_ok he₀
  have hgrows := evaluateMember_grows hpure.grows room record member p.canvas.store
  rw [he] at hgrows
  refine ⟨e, t, he, hgrows, hrel.warning ▸ hwarning, ?_⟩
  have hvalue := hrel.value
  generalize e₀.value = c₀, e.value = c, x.value = v at hshows hvalue
  cases hshows with
  | none =>
    cases hvalue
    exact .inl ⟨rfl, rfl⟩
  | some hshows =>
    cases hvalue with
    | some hcell =>
      obtain ⟨u₀, hu₀, hfull₀, rfl, rfl⟩ := hshows
      obtain ⟨u, rfl, hu⟩ := Tree.exists_twin D hu₀ hfull₀ hcell
      refine .inr ⟨u, rfl, congrArg some hu.value.symm, hu.standing, hu.full, fun b hb hmem => ?_⟩
      obtain ⟨a, -, hab⟩ := exists_of_mem_right hu.places hb
      rcases hstep.new hab with hab | ⟨-, hle⟩
      · obtain ⟨rfl, hlt⟩ := hC hab
        exact Nat.not_le.mpr hlt (h.own a hmem)
      · exact Nat.not_le.mpr (h.stands.lt_size hmem) hle

/-- An entry that comes to something in a run is told. -/
theorem exists_start (h : p.Kept s ts) (hs : s.Closed) (hrecord : s.Has record)
    (hpure : registry.Pure s.size) {e : Evaluation} {t : Store}
    (he : (evaluateMember room registry record member).within p.canvas.store = (.ok e, t)) :
    ∃ e₀ t₀, (evaluateMember room registry record member).within s = (.ok e₀, t₀) ∧
      e₀.warning = e.warning ∧ (e₀.value = none ↔ e.value = none) := by
  obtain ⟨C, -, hends⟩ := h.evaluate hs hrecord hpure _ member
  obtain ⟨e₀, t₀, he₀, D, -, hrel⟩ := hends.exists_ok_left he
  refine ⟨e₀, t₀, he₀, hrel.warning, ?_⟩
  have hvalue := hrel.value
  generalize e₀.value = c₀, e.value = c at hvalue
  cases hvalue <;> simp

/-- New nodes change nothing. -/
theorem grow (h : p.Kept s ts) {t : Store} (hext : p.canvas.store.Extends t)
    (es : List Evaluation) :
    Progress.Kept s { canvas := { p.canvas with store := t }, evaluations := es } ts where
  stands := ⟨h.stands.output, nofun, fun m hm => (h.stands.standing m hm).mono hext, nofun⟩
  nodup := h.nodup
  own := h.own
  leaves m hm := (h.leaves m hm).mono fun _ _ ⟨u, hu, hrest⟩ => ⟨u, hu.mono hext, hrest⟩
  size_le := Nat.le_trans h.size_le hext.size_le
  same a ha := (hext.get?_eq (Nat.lt_of_lt_of_le ha h.size_le)).trans (h.same a ha)

/-- A seed is written, where its target does not lead into what must not be entered. -/
theorem write (h : p.Kept s ts) {t : Store} (hext : p.canvas.store.Extends t) {x : Seed}
    (hx : x.Suits p.canvas.store t ts.places) (text : Text)
    (hclear : Branches.Clear (Target.ofText text) ts) (es : List Evaluation) :
    let canvas := { p.canvas with store := t }.writeText text x.tree.cell
    Progress.Kept s { canvas, evaluations := es }
      (Branches.plant t.size ts (Target.ofText text) x).1 := by
  have hgrown := h.grow hext es
  have hstands : Canvas.Stands { p.canvas with store := t } .output ts := hgrown.stands
  obtain ⟨hstands', -, honly⟩ := Canvas.write_stands hx.sound (Target.ofText text)
    ⟨hstands, h.nodup, hx.rooted, fun a ha => ⟨nofun, hx.apart a ha⟩⟩ hclear
  have hentered := Branches.entered_plant hx.sound (Target.ofText text) h.nodup
    (fun a ha => hstands.lt_size ha) fun a ha => ⟨hx.rooted.lt_size (.inr ha), hx.apart a (.inr ha)⟩
  -- What leads to no node of the output and of the seed goes on to stand as it is.
  have hkeep : ∀ c v, t.ShowsApart (ts.places ++ x.tree.places) c v →
      ({ p.canvas with store := t }.writeText text x.tree.cell).store.ShowsApart
        (Branches.plant t.size ts (Target.ofText text) x).1.places c v := by
    rintro c v ⟨w, hw, hfull, hcell, hvalue, hout⟩
    refine ⟨w, hw.of_agree fun a n ha hn => ?_, hfull, hcell, hvalue, fun a ha hmem => ?_⟩
    · exact (honly.same a (hw.lt_size ha) nofun fun hmem =>
        hout a ha (List.mem_append_left _ hmem)).trans hn
    · rcases hentered.place a hmem with hmem | hle
      · exact hout a ha hmem
      · exact Nat.not_le.mpr (hw.lt_size ha) hle.1
  have hsize : s.size ≤ t.size := hgrown.size_le
  refine ⟨hstands', hentered.nodup, fun a ha => ?_, ?_, Nat.le_trans hsize honly.size_le,
    fun a ha => ?_⟩
  · rcases hentered.place a ha with ha | ha
    · rcases List.mem_append.mp ha with ha | ha
      · exact h.own a ha
      · exact Nat.le_trans h.size_le (hx.new a ha)
    · exact Nat.le_trans hsize ha.1
  · refine Branches.leaves_plant (hx.leaves.mono hkeep)
      (fun ys hys y hy => (hx.parts hys y hy).mono hkeep) _ fun m hm => ?_
    refine (h.leaves m hm).mono fun c v ⟨w, hw, hfull, hcell, hvalue, hout⟩ =>
      hkeep c v ⟨w, hw.mono hext, hfull, hcell, hvalue, fun a ha hmem => ?_⟩
    rcases List.mem_append.mp hmem with hmem | hmem
    · exact hout a ha hmem
    · exact Nat.not_le.mpr (hw.lt_size ha) (hx.new a hmem)
  · have hnot : a ∉ ts.places := fun hmem => Nat.not_le.mpr ha (h.own a hmem)
    exact (honly.same a (Nat.lt_of_lt_of_le ha hsize) nofun hnot).trans (hgrown.same a ha)

/-- What an entry that is told leaves: its value stands in the output, and whatever leads into
nothing that was written goes on to do so, if it is independent of the entry's target. -/
theorem add (h : p.Kept s ts) (hs : s.Closed) (hrecord : s.Has record)
    (hpure : registry.Pure s.size) (hx : Tells room registry record s member x)
    (hclear : x.value ≠ none → Branches.Clear (Target.ofText member.1) ts) :
    ∃ e t us, (evaluateMember room registry record member).within p.canvas.store = (.ok e, t) ∧
      e.warning = x.warning ∧ (e.value = none ↔ x.value = none) ∧ (p.add t e).Kept s us ∧
      us.values = writeOptional ts.values member.1 x.value ∧
      ∀ text, (x.value ≠ none → Path.Independent member.1 text) →
        Branches.Clear (Target.ofText text) ts → Branches.Clear (Target.ofText text) us := by
  obtain ⟨e, t, he, hext, hwarning, hvalue⟩ := h.exists_told hs hrecord hpure hx
  have htarget := evaluateMember_target he
  obtain ⟨target, value, warning⟩ := e
  obtain rfl : target = member.1 := htarget
  rcases hvalue with ⟨hnone, hnone'⟩ | ⟨u, hsome, hsome', hu, hfull, hout⟩
  · cases hnone
    refine ⟨_, t, ts, he, hwarning, ⟨fun _ => hnone', fun _ => rfl⟩, h.grow hext _, ?_,
      fun _ _ hclear => hclear⟩
    rw [hnone']
    rfl
  · cases hsome
    have hsomething : x.value ≠ none := by rw [hsome']; nofun
    have hclear₁ := hclear hsomething
    have hsuits := Seed.suits_frozen p.canvas.store hu hfull hout
    refine ⟨_, t, _, he, hwarning, ⟨nofun, fun hnone => absurd hnone hsomething⟩,
      h.write hext hsuits member.1 hclear₁ _, ?_, fun text hindependent hclear' =>
        Branches.clear_plant hclear' fun hinto =>
          absurd hinto (hindependent hsomething).not_leadsInto⟩
    rw [hsome', Branches.values_plant hsuits.sound _ hclear₁, Seed.frozen, Tree.value_leaf]
    rfl

/-- A run comes to what is told, where the targets are independent of each other. -/
theorem run (hs : s.Closed) (hrecord : s.Has record) (hpure : registry.Pure s.size)
    {tell : Text × Value → Told} (h : p.Kept s ts)
    (hall : ∀ member ∈ mapping, Tells room registry record s member (tell member))
    (hclear : ClearFor tell mapping ts) (hpair : mapping.Pairwise (Compatible tell)) :
    ∃ q us, p.run room registry record mapping = (none, q) ∧ q.Kept s us ∧
      us.values = written tell ts.values mapping ∧
      q.evaluations.filterMap (·.warning) =
        p.evaluations.filterMap (·.warning) ++ mapping.filterMap
          (fun member => (tell member).warning) := by
  induction mapping generalizing p ts with
  | nil => exact ⟨p, ts, rfl, h, rfl, by simp⟩
  | cons member rest ih =>
    rw [List.forall_mem_cons] at hall
    rw [List.pairwise_cons] at hpair
    obtain ⟨e, t, us, he, hwarning, -, hkept, hus, hclear'⟩ :=
      h.add hs hrecord hpure hall.1 (hclear member List.mem_cons_self)
    obtain ⟨q, us', hq, hkept', hvalues, hwarnings⟩ := ih hkept hall.2
      (fun m hm hsome => hclear' m.1 (fun hvalue => hpair.1 m hm hvalue hsome)
        (hclear m (List.mem_cons_of_mem _ hm) hsome)) hpair.2
    refine ⟨q, us', (run_cons_ok he).trans hq, hkept', ?_, ?_⟩
    · rw [hvalues, hus]
      rfl
    · rw [hwarnings, Progress.add, List.filterMap_append, List.append_assoc]
      cases hw : (tell member).warning <;> simp [hw, hwarning]

/-- Where no target is inside another, a run is stopped as one of its entries is at the start, if it
is stopped. -/
theorem run_stops {record : Tree} (h : p.Kept s ts) (room : Nat) (hs : s.Closed)
    (hrecord : record.Standing s) (hfull : record.Full) (hpure : registry.Pure s.size)
    (hvalued : registry.Valued s)
    (hclear : ∀ member ∈ mapping, Branches.Clear (Target.ofText member.1) ts)
    (hpair : mapping.Pairwise fun a b => Path.Independent a.1 b.1) :
    match (p.run room registry record.cell mapping).1 with
    | none => ∀ member ∈ mapping, ∃ e t,
      (evaluateMember room registry record.cell member).within s = (.ok e, t)
    | some stop => ∃ member ∈ mapping, ∃ t,
      (evaluateMember room registry record.cell member).within s = (.error stop, t) := by
  have hhas : s.Has record.cell := hrecord.has hfull
  induction mapping generalizing p ts with
  | nil => exact fun _ hm => nomatch hm
  | cons member rest ih =>
    rw [List.forall_mem_cons] at hclear
    rw [List.pairwise_cons] at hpair
    cases he : (evaluateMember room registry record.cell member).within s with
    | mk result t₀ =>
      cases result with
      | error stop =>
        obtain ⟨C, -, hends⟩ := h.evaluate hs hhas hpure room member
        obtain ⟨t, he'⟩ := hends.exists_error he
        rw [run_cons_error he']
        exact ⟨member, List.mem_cons_self, t₀, he⟩
      | ok e₀ =>
        obtain ⟨x, hx, -, -⟩ := exists_tells hvalued hrecord hfull he
        obtain ⟨e, t, us, he', -, -, hkept, -, hclear'⟩ :=
          h.add hs hhas hpure hx fun _ => hclear.1
        have hrest := ih hkept (fun m hm => hclear' m.1 (fun _ => hpair.1 m hm) (hclear.2 m hm))
          hpair.2
        rw [run_cons_ok he']
        split at hrest
        · exact List.forall_mem_cons.mpr ⟨⟨e₀, t₀, he⟩, hrest⟩
        · obtain ⟨m, hm, hstop⟩ := hrest
          exact ⟨m, List.mem_cons_of_mem _ hm, hstop⟩

end Kept

end Progress

end Reshape

import Reshape.Proofs.Keyed
import Reshape.Proofs.Store.Shown
import Reshape.Transform.Country

/-!
# Pure transforms

A transform is pure if it leaves all nodes as they are and takes no notice of where they are kept:
called with corresponding cells in coupled stores, it comes to corresponding answers. It can answer
with its arguments or parts of them, with new nodes, and with nodes that it keeps, whose addresses
are below a bound. What it answers with is not copied, so a mapping can still change what a pure
transform keeps. Where only the nodes of an answer matter, it is enough that they come from the
arguments, from the start, or are new (`Transform.Discreet`): a pure transform that answers with
values cannot come by others (`Transform.Pure.discreet`).
-/

namespace Reshape

inductive Answer.Rel (R : Nat → Nat → Prop) : Answer → Answer → Prop
  | value {x y : Option Cell} (h : Option.Rel (Cell.Rel R) x y) : Answer.Rel R (.value x) (.value y)
  | failed (e : TransformError) : Answer.Rel R (.failed e) (.failed e)
  | aborted : Answer.Rel R .aborted .aborted

namespace Coupling

variable {s s' : Store}

/-- Corresponding answers, in stores that are come to from coupled stores. -/
def Answers (C : Coupling s s') (r r' : Answer × Store) : Prop :=
  ∃ D : Coupling r.2 r'.2, C.Step D ∧ Answer.Rel D.rel r.1 r'.1

/-- Every node below a bound corresponds to itself. -/
def Fixes (C : Coupling s s') (base : Nat) : Prop :=
  ∀ a, a < base → C.rel a a

theorem Step.fixes {t t' : Store} {C : Coupling s s'} {D : Coupling t t'} (h : C.Step D)
    {base : Nat} (hC : C.Fixes base) : D.Fixes base :=
  fun a ha => h.keeps (hC a ha)

end Coupling

namespace Transform

/-- A transform leaves all nodes as they are. -/
def Grows (f : Transform) : Prop :=
  ∀ (room : Nat) (args : List Cell) (s : Store), s.Extends (f room args s).2

/-- What is kept has addresses below `base`. -/
structure Pure (base : Nat) (f : Transform) : Prop where
  grows : f.Grows
  alike : ∀ (room : Nat) {s s' : Store} (C : Coupling s s'), C.Fixes base →
    ∀ {args args' : List Cell}, List.Forall₂ (Cell.Rel C.rel) args args' →
      C.Answers (f room args s) (f room args' s')

variable {base : Nat}

/-- A transform that leaves the store alone. -/
theorem pure_of_same {f : Transform} (hf : ∀ room args s, (f room args s).2 = s)
    (halike : ∀ (room : Nat) {s s' : Store} (C : Coupling s s') {args args' : List Cell},
      List.Forall₂ (Cell.Rel C.rel) args args' →
        Answer.Rel C.rel (f room args s).1 (f room args' s').1) : Pure base f where
  grows room args s := by
    rw [hf]
    exact .refl s
  alike room s s' C _ args args' hargs := by
    have h := halike room C hargs
    have hs := hf room args s
    have hs' := hf room args' s'
    generalize f room args s = r, f room args' s' = r' at *
    obtain ⟨answer, t⟩ := r
    obtain ⟨answer', t'⟩ := r'
    dsimp only at hs hs'
    subst hs hs'
    exact ⟨C, .refl C, h⟩

/-- A transform that always has the same answer, which leads to no node. -/
theorem pure_answer {answer : Answer} (h : ∀ R, Answer.Rel R answer answer) :
    Pure base fun _ _ s => (answer, s) :=
  pure_of_same (fun _ _ _ => rfl) fun _ _ _ C _ _ _ => h C.rel

/-- The transform that gives its only argument back, as it is. -/
def same : Transform
  | _, [c], s => (.value (some c), s)
  | _, _, s => (.failed (.unfit "one argument"), s)

theorem pure_same : Pure base same := by
  refine pure_of_same (fun room args s => ?_) fun _ _ _ C _ _ h => ?_
  · unfold same
    split <;> rfl
  · cases h with
    | nil => exact .failed _
    | cons hc hrest =>
      cases hrest with
      | nil => exact .value (.some hc)
      | cons _ _ => exact .failed _

/-! ### Answers that are new -/

/-- A transform leaves all nodes as they are and answers, if it does, with a tree of new nodes. -/
structure Fresh (f : Transform) : Prop where
  grows : f.Grows
  fresh : ∀ (room : Nat) (args : List Cell) (s : Store) (c : Cell),
    (f room args s).1 = .value (some c) → ∃ t : Tree, t.Standing (f room args s).2 ∧ t.Full ∧
      t.cell = c ∧ t.places.Nodup ∧ ∀ a ∈ t.places, s.size ≤ a

/-- An answer that is a scalar has no nodes at all. -/
theorem Grows.fresh {f : Transform} (hgrows : f.Grows)
    (h : ∀ room args s c, (f room args s).1 = .value (some c) → ∃ x, c = .scalar x) : f.Fresh where
  grows := hgrows
  fresh room args s c hc := by
    obtain ⟨x, rfl⟩ := h room args s c hc
    exact ⟨.leaf (.scalar x) x.value, Tree.standing_leaf _ _ _,
      (Tree.full_leaf _ _).mpr ⟨x, rfl, rfl⟩,
      rfl, by simp, by simp⟩

/-! ### Answers that are values -/

/-- Called with what shows values, where the nodes of the start are what they were, the transform
answers with what shows a value. -/
def Valued (start : Store) (f : Transform) : Prop :=
  ∀ (room : Nat) (args : List Cell) (s : Store), (∀ a < start.size, s.get? a = start.get? a) →
    (∀ c ∈ args, ∃ v, s.Shows c v) →
    ∀ c, (f room args s).1 = .value (some c) → ∃ v, (f room args s).2.Shows c v

/-- A transform leaves all nodes as they are. Called with trees, where the nodes of the start are
what they were, it answers with a tree of nodes of theirs, of nodes of the start, and of new ones.
-/
structure Discreet (start : Store) (f : Transform) : Prop where
  grows : f.Grows
  answer : ∀ (room : Nat) (args : List Tree) (s : Store),
    (∀ a < start.size, s.get? a = start.get? a) → (∀ t ∈ args, t.Standing s ∧ t.Full) →
    ∀ c, (f room (args.map Tree.cell) s).1 = .value (some c) →
      ∃ t : Tree, t.Standing (f room (args.map Tree.cell) s).2 ∧ t.Full ∧ t.cell = c ∧
        ∀ a ∈ t.places, a < start.size ∨ (∃ u ∈ args, a ∈ u.places) ∨ s.size ≤ a

theorem Fresh.discreet {f : Transform} (h : f.Fresh) (start : Store) : f.Discreet start where
  grows := h.grows
  answer room args s _ _ c hc :=
    let ⟨t, ht, hfull, hcell, _, hnew⟩ := h.fresh room (args.map Tree.cell) s c hc
    ⟨t, ht, hfull, hcell, fun a ha => .inr (.inr (hnew a ha))⟩

/-- A pure transform cannot come by any other nodes: those that it can are coupled with themselves.
-/
theorem Pure.discreet {start : Store} {f : Transform} (h : Pure start.size f)
    (hstart : start.Closed) (hvalued : f.Valued start) : f.Discreet start where
  grows := h.grows
  answer room args s hsame hargs c hc := by
    have hclosed : s.ClosedUnder fun a => a < start.size ∨ ∃ u ∈ args, a ∈ u.places := by
      rintro a (ha | ⟨u, hu, ha⟩)
      · obtain ⟨n, hn, hcells⟩ := hstart.closedUnder a ha
        exact ⟨n, (hsame a ha).trans hn, fun b hb => .inl (hcells b hb)⟩
      · obtain ⟨n, hn, hcells⟩ := (hargs u hu).1.closedUnder (hargs u hu).2 a ha
        exact ⟨n, hn, fun b hb => .inr ⟨u, hu, hcells b hb⟩⟩
    let C := Coupling.within hclosed
    have hrel : List.Forall₂ (Cell.Rel C.rel) (args.map Tree.cell) (args.map Tree.cell) := by
      refine List.forall₂_same.mpr fun d hd => ?_
      obtain ⟨u, hu, rfl⟩ := List.mem_map.mp hd
      exact Cell.rel_self fun a ha => ⟨rfl, .inr ⟨u, hu, (hargs u hu).1.live (hargs u hu).2 ha⟩⟩
    obtain ⟨v, t, ht, hfull, rfl, -⟩ := hvalued room _ s hsame (fun d hd => by
      obtain ⟨u, hu, rfl⟩ := List.mem_map.mp hd
      exact ⟨_, u, (hargs u hu).1, (hargs u hu).2, rfl, rfl⟩) c hc
    obtain ⟨D, hstep, hanswer⟩ := h.alike room C (fun a ha => ⟨rfl, .inl ha⟩) hrel
    rw [hc] at hanswer
    cases hanswer with
    | value hanswer =>
      cases hanswer with
      | some hcell =>
        obtain ⟨u, -, hu⟩ := Tree.exists_twin D ht hfull hcell
        refine ⟨t, ht, hfull, rfl, fun a ha => ?_⟩
        obtain ⟨b, -, hab⟩ := exists_of_mem_right hu.places.flip ha
        rcases hstep.new hab with hab | ⟨hle, -⟩
        · exact hab.2.elim .inl fun hmem => .inr (.inl hmem)
        · exact .inr (.inr hle)

theorem valued_same (start : Store) : same.Valued start := by
  intro room args s _ hargs c hc
  unfold same at *
  split at hc
  · cases hc
    exact hargs c List.mem_cons_self
  · cases hc

end Transform

/-! ### What messages show -/

namespace Coupling

variable {s s' : Store}

theorem contains_iff (C : Coupling s s') {inside inside' : List Nat}
    (h : List.Forall₂ C.rel inside inside') {a b : Nat} (hab : C.rel a b) :
    inside.contains a = inside'.contains b := by
  induction h with
  | nil => rfl
  | @cons x y _ _ hxy _ ih =>
    have heq : (a == x) = (b == y) := by
      rw [Bool.eq_iff_iff, beq_iff_eq, beq_iff_eq]
      constructor
      · rintro rfl
        exact C.left_unique hab hxy
      · rintro rfl
        exact C.right_unique hab hxy
    rw [List.contains_cons, List.contains_cons, heq, ih]

/-- Corresponding cells are shown alike, inside of corresponding nodes. -/
theorem quoted (C : Coupling s s') (room : Nat) {inside inside' : List Nat}
    (hinside : List.Forall₂ C.rel inside inside') {c d : Cell} (hcd : Cell.Rel C.rel c d) :
    s.look.quoted room inside c = s'.look.quoted room inside' d := by
  induction room generalizing inside inside' c d with
  | zero => rfl
  | succ room ih =>
    have hview := C.look.view hcd
    have hwithin : List.Forall₂ C.rel ((s.look.address? c).toList ++ inside)
        ((s'.look.address? d).toList ++ inside') := by
      cases hcd with
      | scalar x => exact hinside
      | ref hab => exact .cons hab hinside
    have hagain : (s.look.address? c).any inside.contains =
        (s'.look.address? d).any inside'.contains := by
      cases hcd with
      | scalar x => rfl
      | ref hab => exact C.contains_iff hinside hab
    rw [Look.quoted, Look.quoted, hagain]
    generalize s.look.view c = v, s'.look.view d = v' at hview
    cases hview with
    | scalar x => rfl
    | @list xs ys h =>
      have hparts : xs.mapM (s.look.quoted room ((s.look.address? c).toList ++ inside)) =
          ys.mapM (s'.look.quoted room ((s'.look.address? d).toList ++ inside')) := by
        induction h with
        | nil => rfl
        | cons hxy _ ihs => rw [List.mapM_cons, List.mapM_cons, ih hwithin hxy, ihs]
      dsimp only
      rw [hparts]
    | @obj ms ns h =>
      dsimp only
      have hparts : (ms.mapM fun (m : Text × Cell) => do
            return Reshape.quoted m.1 ++ ": " ++
              (← s.look.quoted room ((s.look.address? c).toList ++ inside) m.2)) =
          ns.mapM fun (m : Text × Cell) => do
            return Reshape.quoted m.1 ++ ": " ++
              (← s'.look.quoted room ((s'.look.address? d).toList ++ inside') m.2) := by
        induction h with
        | nil => rfl
        | cons hxy _ ihs => rw [List.mapM_cons, List.mapM_cons, hxy.1, ih hwithin hxy.2, ihs]
      rw [hparts]

end Coupling

/-! ### Registries -/

/-- Every transform of a registry leaves all nodes as they are. -/
def Registry.Grows (r : Registry) : Prop :=
  ∀ name found, r.get? name = some found → found.call.Grows

/-- Every transform of a registry is pure. -/
def Registry.Pure (base : Nat) (r : Registry) : Prop :=
  ∀ name found, r.get? name = some found → Transform.Pure base found.call

namespace Country

theorem ofCode_alike {s s' : Store} (C : Coupling s s') (names : List (String × String))
    (room : Nat)
    {c d : Cell} (hcd : Cell.Rel C.rel c d) : ofCode names room s c = ofCode names room s' d := by
  have hquoted := C.quoted (room - 1) .nil hcd
  unfold ofCode
  cases hcd with
  | scalar x =>
    cases x with
    | null | str t => rfl
    | bool _ | int _ | double _ =>
      dsimp only
      rw [hquoted]
  | ref hab =>
    dsimp only
    rw [hquoted]

theorem pure_transform (names : List (String × String)) (base : Nat) :
    Transform.Pure base (transform names) := by
  refine Transform.pure_of_same (fun room args s => ?_) fun room s s' C args args' h => ?_
  · unfold transform
    split
    · rfl
    · split <;> rfl
    · rfl
  · cases h with
    | nil => exact .value .none
    | cons hcd hrest =>
      cases hrest with
      | nil =>
        unfold transform
        dsimp only
        rw [ofCode_alike C names room hcd]
        split
        · next name _ =>
          cases name with
          | none => exact .value .none
          | some t => exact .value (.some (.scalar (.str t)))
        · exact .failed _
      | cons _ hrest =>
        unfold transform
        dsimp only
        rw [List.length_cons, List.length_cons, hrest.length_eq]
        exact .failed _

/-- A name is a text, which is no part of anything. -/
theorem fresh_transform (names : List (String × String)) : Transform.Fresh (transform names) := by
  refine (pure_transform names 0).grows.fresh fun room args s c hc => ?_
  unfold transform at hc
  split at hc
  · cases hc
  · split at hc
    · obtain ⟨t, -, rfl⟩ := Option.map_eq_some_iff.mp (Answer.value.inj hc)
      exact ⟨_, rfl⟩
    · cases hc
  · cases hc

end Country

namespace Registry

variable {base : Nat}

/-- Every transform of a registry has values as answers. -/
def Valued (start : Store) (r : Registry) : Prop :=
  ∀ name found, r.get? name = some found → found.call.Valued start

/-- Every transform of a registry is discreet. -/
def Discreet (start : Store) (r : Registry) : Prop :=
  ∀ name found, r.get? name = some found → found.call.Discreet start

theorem pure_empty : Registry.empty.Pure base := by
  intro name found h
  cases h

theorem valued_empty (start : Store) : Registry.empty.Valued start := by
  intro name found h
  cases h

theorem pure_builtin : Registry.builtin.Pure base := by
  intro name found h
  obtain ⟨-, rfl⟩ : _ ∧ found = .function (Country.transform territoryNames) := by
    have hmem := Keyed.mem_of_get? h
    simpa [builtin] using hmem
  exact Country.pure_transform territoryNames base

theorem forall_ofList {pairs : List (Text × Registered)} {P : Registered → Prop}
    (h : ∀ p ∈ pairs, P p.2) {name : Text} {found : Registered}
    (hget : (Registry.ofList pairs).get? name = some found) : P found := by
  rcases Keyed.mem_putAll (Keyed.mem_of_get? hget) with hmem | hmem
  · cases hmem
  · exact h _ hmem

theorem pure_ofList {pairs : List (Text × Registered)}
    (h : ∀ p ∈ pairs, Transform.Pure base p.2.call) : (Registry.ofList pairs).Pure base :=
  fun _ _ hget => forall_ofList (P := fun found => Transform.Pure base found.call) h hget

theorem valued_ofList {start : Store} {pairs : List (Text × Registered)}
    (h : ∀ p ∈ pairs, p.2.call.Valued start) : (Registry.ofList pairs).Valued start :=
  fun _ _ hget => forall_ofList (P := fun found => found.call.Valued start) h hget

theorem discreet_ofList {start : Store} {pairs : List (Text × Registered)}
    (h : ∀ p ∈ pairs, p.2.call.Discreet start) : (Registry.ofList pairs).Discreet start :=
  fun _ _ hget => forall_ofList (P := fun found => found.call.Discreet start) h hget

theorem exists_get?_of_lookup {r : Registry} {v : Value} {found : Registered}
    (h : r.lookup v = some found) : ∃ name, r.get? name = some found := by
  unfold Registry.lookup at h
  split at h
  · exact ⟨_, (Option.mem_filter_iff.mp h).1⟩
  · cases h

theorem Pure.grows {r : Registry} (h : r.Pure base) : r.Grows :=
  fun name found hget => (h name found hget).grows

theorem Grows.lookup {r : Registry} (h : r.Grows) {v : Value} {found : Registered}
    (hl : r.lookup v = some found) : found.call.Grows :=
  let ⟨name, hget⟩ := exists_get?_of_lookup hl
  h name found hget

theorem Discreet.grows {start : Store} {r : Registry} (h : r.Discreet start) : r.Grows :=
  fun name found hget => (h name found hget).grows

theorem Discreet.lookup {start : Store} {r : Registry} (h : r.Discreet start) {v : Value}
    {found : Registered} (hl : r.lookup v = some found) : found.call.Discreet start :=
  let ⟨name, hget⟩ := exists_get?_of_lookup hl
  h name found hget

theorem Pure.lookup {r : Registry} (h : r.Pure base) {v : Value} {found : Registered}
    (hl : r.lookup v = some found) : Transform.Pure base found.call :=
  let ⟨name, hget⟩ := exists_get?_of_lookup hl
  h name found hget

theorem Valued.lookup {start : Store} {r : Registry} (h : r.Valued start) {v : Value}
    {found : Registered} (hl : r.lookup v = some found) : found.call.Valued start :=
  let ⟨name, hget⟩ := exists_get?_of_lookup hl
  h name found hget

end Registry

end Reshape

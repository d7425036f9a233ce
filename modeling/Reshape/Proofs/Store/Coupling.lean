import Mathlib.Data.Nat.Init
import Reshape.Proofs.Store.Reading
import Reshape.Proofs.Store.Tree

/-!
# Coupled stores

Where nodes are kept makes no difference to what is done with them. A coupling of two stores says
which nodes correspond, one to one; corresponding nodes hold corresponding cells. Whatever is done
on both sides with corresponding cells leads on to a coupling (`Coupling.Step`) that has the old
nodes and some new ones, and what is outside of a coupling is never touched. So a coupling tells
three things at once: that a run does not depend on addresses, which nodes it depends on, and which
nodes it can change.
-/

namespace Reshape

inductive Cell.Rel (R : Nat → Nat → Prop) : Cell → Cell → Prop
  | scalar (x : Scalar) : Cell.Rel R (.scalar x) (.scalar x)
  | ref {a b : Nat} (h : R a b) : Cell.Rel R (.ref a) (.ref b)

inductive Node.Rel (R : Nat → Nat → Prop) : Node → Node → Prop
  | list {cs ds : List Cell} (h : List.Forall₂ (Cell.Rel R) cs ds) :
      Node.Rel R (.list cs) (.list ds)
  | obj {ms ns : Keyed Text Cell} (h : Keyed.Rel (Cell.Rel R) ms ns) :
      Node.Rel R (.obj ms) (.obj ns)

section

variable {R S : Nat → Nat → Prop}

theorem Cell.Rel.mono (hRS : ∀ a b, R a b → S a b) {c d : Cell} (h : Cell.Rel R c d) :
    Cell.Rel S c d := by
  cases h with
  | scalar x => exact .scalar x
  | ref h => exact .ref (hRS _ _ h)

theorem Cell.Rel.swap {c d : Cell} (h : Cell.Rel R c d) : Cell.Rel (fun a b => R b a) d c := by
  cases h with
  | scalar x => exact .scalar x
  | ref h => exact .ref h

theorem Keyed.Rel.mono {κ α β : Type} {P Q : α → β → Prop} (hPQ : ∀ a b, P a b → Q a b)
    {ms : Keyed κ α} {ns : Keyed κ β} (h : Keyed.Rel P ms ns) : Keyed.Rel Q ms ns :=
  h.imp fun _ _ hpq => ⟨hpq.1, hPQ _ _ hpq.2⟩

theorem Node.Rel.mono (hRS : ∀ a b, R a b → S a b) {n m : Node} (h : Node.Rel R n m) :
    Node.Rel S n m := by
  cases h with
  | list h => exact .list (h.imp fun _ _ => Cell.Rel.mono hRS)
  | obj h => exact .obj (h.mono fun _ _ => Cell.Rel.mono hRS)

theorem Keyed.Rel.snd {ms ns : Keyed Text Cell} (h : Keyed.Rel (Cell.Rel R) ms ns) :
    List.Forall₂ (Cell.Rel R) (ms.map Prod.snd) (ns.map Prod.snd) := by
  rw [List.forall₂_map_left_iff, List.forall₂_map_right_iff]
  exact h.imp fun _ _ hpq => hpq.2

theorem Node.Rel.cells {n m : Node} (h : Node.Rel R n m) :
    List.Forall₂ (Cell.Rel R) n.cells m.cells := by
  cases h with
  | list h => exact h
  | obj h => exact h.snd

theorem Keyed.Rel.zipWith {ms ns : Keyed Text Cell} (h : Keyed.Rel (Cell.Rel R) ms ns)
    {cs ds : List Cell} (hcs : List.Forall₂ (Cell.Rel S) cs ds) :
    Keyed.Rel (Cell.Rel S) (List.zipWith (fun m c => (m.1, c)) ms cs)
      (List.zipWith (fun m c => (m.1, c)) ns ds) := by
  induction h generalizing cs ds with
  | nil => exact .nil
  | cons hpq _ ih =>
    cases hcs with
    | nil => exact .nil
    | cons hcd hrest => exact .cons ⟨hpq.1, hcd⟩ (ih hrest)

theorem Node.Rel.withCells {n m : Node} (h : Node.Rel R n m) {cs ds : List Cell}
    (hcs : List.Forall₂ (Cell.Rel S) cs ds) : Node.Rel S (n.withCells cs) (m.withCells ds) := by
  cases h with
  | list _ => exact .list hcs
  | obj h => exact .obj (h.zipWith hcs)

theorem Keyed.Rel.put {κ α β : Type} [DecidableEq κ] {P : α → β → Prop} {ms : Keyed κ α}
    {ns : Keyed κ β} (h : Keyed.Rel P ms ns) (key : κ) {a : α} {b : β} (hab : P a b) :
    Keyed.Rel P (Keyed.put ms key a) (Keyed.put ns key b) := by
  induction h with
  | nil => exact .cons ⟨rfl, hab⟩ .nil
  | @cons p q _ _ hpq hrest ih =>
    rw [Keyed.put, Keyed.put, hpq.1]
    split
    · exact .cons ⟨rfl, hab⟩ hrest
    · exact .cons ⟨rfl, hpq.2⟩ ih

end

/-- Which nodes of two stores correspond. -/
structure Coupling (s s' : Store) where
  rel : Nat → Nat → Prop
  left_unique : ∀ {a b c}, rel a b → rel a c → b = c
  right_unique : ∀ {a b c}, rel a c → rel b c → a = b
  nodes : ∀ {a b}, rel a b →
    ∃ n n', s.get? a = some n ∧ s'.get? b = some n' ∧ Node.Rel rel n n'

namespace Coupling

variable {s s' t t' u u' : Store}

theorem lt_left (C : Coupling s s') {a b : Nat} (h : C.rel a b) : a < s.size :=
  let ⟨_, _, hn, _, _⟩ := C.nodes h
  Store.lt_size_of_get? hn

theorem lt_right (C : Coupling s s') {a b : Nat} (h : C.rel a b) : b < s'.size :=
  let ⟨_, _, _, hn, _⟩ := C.nodes h
  Store.lt_size_of_get? hn

/-- The same coupling, the other way round. -/
def symm (C : Coupling s s') : Coupling s' s where
  rel a b := C.rel b a
  left_unique h h' := C.right_unique h h'
  right_unique h h' := C.left_unique h h'
  nodes h := by
    obtain ⟨n, n', hn, hn', hrel⟩ := C.nodes h
    refine ⟨n', n, hn', hn, ?_⟩
    cases hrel with
    | list h => exact .list (h.flip.imp fun _ _ hcd => hcd.swap)
    | obj h => exact .obj (h.flip.imp fun _ _ hpq => ⟨hpq.1.symm, hpq.2.swap⟩)

/-- A coupling goes on to hold where the nodes in it are the same. -/
def transfer (C : Coupling s s') (hleft : ∀ a b, C.rel a b → t.get? a = s.get? a)
    (hright : ∀ a b, C.rel a b → t'.get? b = s'.get? b) : Coupling t t' where
  rel := C.rel
  left_unique := C.left_unique
  right_unique := C.right_unique
  nodes h :=
    let ⟨n, n', hn, hn', hrel⟩ := C.nodes h
    ⟨n, n', (hleft _ _ h).trans hn, (hright _ _ h).trans hn', hrel⟩

/-- What is done on both sides leads from the one coupling to the other. -/
structure Step (C : Coupling s s') (D : Coupling t t') : Prop where
  keeps : ∀ {a b}, C.rel a b → D.rel a b
  new : ∀ {a b}, D.rel a b → C.rel a b ∨ s.size ≤ a ∧ s'.size ≤ b
  left_size : s.size ≤ t.size
  right_size : s'.size ≤ t'.size
  left_same : ∀ {a}, a < s.size → (∀ b, ¬ C.rel a b) → t.get? a = s.get? a
  right_same : ∀ {b}, b < s'.size → (∀ a, ¬ C.rel a b) → t'.get? b = s'.get? b

namespace Step

theorem refl (C : Coupling s s') : C.Step C where
  keeps h := h
  new h := .inl h
  left_size := Nat.le_refl _
  right_size := Nat.le_refl _
  left_same _ _ := rfl
  right_same _ _ := rfl

theorem trans {C : Coupling s s'} {D : Coupling t t'} {E : Coupling u u'} (h : C.Step D)
    (h' : D.Step E) : C.Step E where
  keeps hab := h'.keeps (h.keeps hab)
  new hab := by
    rcases h'.new hab with hab | ⟨ha, hb⟩
    · exact h.new hab
    · exact .inr ⟨Nat.le_trans h.left_size ha, Nat.le_trans h.right_size hb⟩
  left_size := Nat.le_trans h.left_size h'.left_size
  right_size := Nat.le_trans h.right_size h'.right_size
  left_same ha hC := by
    rw [h'.left_same (Nat.lt_of_lt_of_le ha h.left_size) fun b hb => ?_, h.left_same ha hC]
    rcases h.new hb with hb | ⟨hle, -⟩
    · exact hC b hb
    · exact Nat.not_le.mpr ha hle
  right_same hb hC := by
    rw [h'.right_same (Nat.lt_of_lt_of_le hb h.right_size) fun a ha => ?_, h.right_same hb hC]
    rcases h.new ha with ha | ⟨-, hle⟩
    · exact hC a ha
    · exact Nat.not_le.mpr hb hle

theorem cell {C : Coupling s s'} {D : Coupling t t'} (h : C.Step D) {c d : Cell}
    (hcd : Cell.Rel C.rel c d) : Cell.Rel D.rel c d :=
  hcd.mono fun _ _ => h.keeps

theorem cells {C : Coupling s s'} {D : Coupling t t'} (h : C.Step D) {cs ds : List Cell}
    (hcs : List.Forall₂ (Cell.Rel C.rel) cs ds) : List.Forall₂ (Cell.Rel D.rel) cs ds :=
  hcs.imp fun _ _ => h.cell

theorem members {C : Coupling s s'} {D : Coupling t t'} (h : C.Step D) {ms ns : Keyed Text Cell}
    (hms : Keyed.Rel (Cell.Rel C.rel) ms ns) : Keyed.Rel (Cell.Rel D.rel) ms ns :=
  hms.mono fun _ _ => h.cell

end Step

/-! ### New nodes and other nodes -/

/-- The coupling with one more node on each side. -/
def push (C : Coupling s s') {n n' : Node} (h : Node.Rel C.rel n n') :
    Coupling (s.push n) (s'.push n') where
  rel a b := C.rel a b ∨ a = s.size ∧ b = s'.size
  left_unique {a b c} hb hc := by
    rcases hb with hb | ⟨ha, hb⟩ <;> rcases hc with hc | ⟨ha', hc⟩
    · exact C.left_unique hb hc
    · exact absurd ha' (Nat.ne_of_lt (C.lt_left hb))
    · exact absurd ha (Nat.ne_of_lt (C.lt_left hc))
    · rw [hb, hc]
  right_unique {a b c} ha hb := by
    rcases ha with ha | ⟨ha, hc⟩ <;> rcases hb with hb | ⟨hb, hc'⟩
    · exact C.right_unique ha hb
    · exact absurd hc' (Nat.ne_of_lt (C.lt_right ha))
    · exact absurd hc (Nat.ne_of_lt (C.lt_right hb))
    · rw [ha, hb]
  nodes {a b} hab := by
    rcases hab with hab | ⟨rfl, rfl⟩
    · obtain ⟨m, m', hm, hm', hrel⟩ := C.nodes hab
      exact ⟨m, m', Store.Extends.push s n _ _ hm, Store.Extends.push s' n' _ _ hm',
        hrel.mono fun _ _ => .inl⟩
    · exact ⟨n, n', get?_push_self s n, get?_push_self s' n', h.mono fun _ _ => .inl⟩

theorem step_push (C : Coupling s s') {n n' : Node} (h : Node.Rel C.rel n n') :
    C.Step (C.push h) where
  keeps := .inl
  new hab := by
    rcases hab with hab | ⟨rfl, rfl⟩
    · exact .inl hab
    · exact .inr ⟨Nat.le_refl _, Nat.le_refl _⟩
  left_size := by simp
  right_size := by simp
  left_same ha _ := by rw [Store.get?_push, if_neg (Nat.ne_of_lt ha)]
  right_same hb _ := by rw [Store.get?_push, if_neg (Nat.ne_of_lt hb)]

theorem push_rel (C : Coupling s s') {n n' : Node} (h : Node.Rel C.rel n n') :
    (C.push h).rel s.size s'.size :=
  .inr ⟨rfl, rfl⟩

/-- The coupling with other nodes at two addresses that correspond. -/
def put (C : Coupling s s') {a b : Nat} (hab : C.rel a b) {n n' : Node} (h : Node.Rel C.rel n n') :
    Coupling (s.put a n) (s'.put b n') where
  rel := C.rel
  left_unique := C.left_unique
  right_unique := C.right_unique
  nodes {x y} hxy := by
    rw [Store.get?_put, Store.get?_put]
    by_cases hx : a = x
    · subst hx
      cases C.left_unique hab hxy
      exact ⟨n, n', if_pos ⟨rfl, C.lt_left hab⟩, if_pos ⟨rfl, C.lt_right hab⟩, h⟩
    · have hy : b ≠ y := fun e => hx (C.right_unique hab (e ▸ hxy))
      rw [if_neg fun e => hx e.1, if_neg fun e => hy e.1]
      exact C.nodes hxy

theorem step_put (C : Coupling s s') {a b : Nat} (hab : C.rel a b) {n n' : Node}
    (h : Node.Rel C.rel n n') : C.Step (C.put hab h) where
  keeps h := h
  new h := .inl h
  left_size := by simp
  right_size := by simp
  left_same {x} _ hx := by
    rw [Store.get?_put, if_neg]
    rintro ⟨rfl, -⟩
    exact hx b hab
  right_same {y} _ hy := by
    rw [Store.get?_put, if_neg]
    rintro ⟨rfl, -⟩
    exact hy a hab

/-! ### What is seen -/

/-- Cells that correspond are seen alike. -/
theorem look (C : Coupling s s') : Look.Rel s.look s'.look (Cell.Rel C.rel) where
  scalar := .scalar
  view hcd := by
    cases hcd with
    | scalar x => exact .scalar x
    | @ref a b hab =>
      obtain ⟨n, n', hn, hn', hrel⟩ := C.nodes hab
      simp only [Store.look, hn, hn']
      cases hrel with
      | list h => exact .list h
      | obj h => exact .obj h

theorem elements? (C : Coupling s s') {c d : Cell} (hcd : Cell.Rel C.rel c d) :
    Option.Rel (List.Forall₂ (Cell.Rel C.rel)) (s.elements? c) (s'.elements? d) := by
  cases hcd with
  | scalar x => exact .none
  | @ref a b hab =>
    obtain ⟨n, n', hn, hn', hrel⟩ := C.nodes hab
    simp only [Store.elements?, hn, hn']
    cases hrel with
    | list h => exact .some h
    | obj h => exact .none

theorem members? (C : Coupling s s') {c d : Cell} (hcd : Cell.Rel C.rel c d) :
    Option.Rel (Keyed.Rel (Cell.Rel C.rel)) (s.members? c) (s'.members? d) := by
  cases hcd with
  | scalar x => exact .none
  | @ref a b hab =>
    obtain ⟨n, n', hn, hn', hrel⟩ := C.nodes hab
    simp only [Store.members?, hn, hn']
    cases hrel with
    | list h => exact .none
    | obj h => exact .some h

end Coupling

/-! ### Loading -/

mutual

/-- A value is loaded alike into both stores. -/
theorem exists_step_load {s s' : Store} (C : Coupling s s') : (v : Value) →
    ∃ D : Coupling (load v s).2 (load v s').2, C.Step D ∧
      Cell.Rel D.rel (load v s).1 (load v s').1
  | .null => ⟨C, .refl C, .scalar .null⟩
  | .bool b => ⟨C, .refl C, .scalar (.bool b)⟩
  | .int n => ⟨C, .refl C, .scalar (.int n)⟩
  | .double x => ⟨C, .refl C, .scalar (.double x)⟩
  | .str x => ⟨C, .refl C, .scalar (.str x)⟩
  | .list xs => by
    obtain ⟨D, hstep, hcells⟩ := exists_step_loadElements C xs
    exact ⟨D.push (.list hcells), hstep.trans (D.step_push _), .ref (D.push_rel _)⟩
  | .obj ms => by
    obtain ⟨D, hstep, hcells⟩ := exists_step_loadMembers C ms
    exact ⟨D.push (.obj hcells), hstep.trans (D.step_push _), .ref (D.push_rel _)⟩

theorem exists_step_loadElements {s s' : Store} (C : Coupling s s') : (xs : List Value) →
    ∃ D : Coupling (loadElements xs s).2 (loadElements xs s').2, C.Step D ∧
      List.Forall₂ (Cell.Rel D.rel) (loadElements xs s).1 (loadElements xs s').1
  | [] => ⟨C, .refl C, .nil⟩
  | x :: xs => by
    obtain ⟨D, hstep, hcell⟩ := exists_step_load C x
    obtain ⟨E, hstep', hcells⟩ := exists_step_loadElements D xs
    exact ⟨E, hstep.trans hstep', .cons (hstep'.cell hcell) hcells⟩

theorem exists_step_loadMembers {s s' : Store} (C : Coupling s s') : (ms : List (Text × Value)) →
    ∃ D : Coupling (loadMembers ms s).2 (loadMembers ms s').2, C.Step D ∧
      Keyed.Rel (Cell.Rel D.rel) (loadMembers ms s).1 (loadMembers ms s').1
  | [] => ⟨C, .refl C, .nil⟩
  | (k, v) :: ms => by
    obtain ⟨D, hstep, hcell⟩ := exists_step_load C v
    obtain ⟨E, hstep', hcells⟩ := exists_step_loadMembers D ms
    exact ⟨E, hstep.trans hstep', .cons ⟨rfl, hstep'.cell hcell⟩ hcells⟩

end

/-! ### Copying -/

namespace Copier

/-- Nodes that correspond were copied to nodes that correspond. -/
def Rel (R : Nat → Nat → Prop) (p p' : Copier) : Prop :=
  List.Forall₂ (fun x y => R x.1 y.1 ∧ R x.2 y.2) p.memo p'.memo

theorem Rel.mono {R S : Nat → Nat → Prop} (hRS : ∀ {a b}, R a b → S a b) {p p' : Copier}
    (h : p.Rel R p') : p.Rel S p' :=
  h.imp fun _ _ hxy => ⟨hRS hxy.1, hRS hxy.2⟩

theorem Rel.get? {p p' : Copier} {s s' : Store} (C : Coupling s s') (h : p.Rel C.rel p') {a b : Nat}
    (hab : C.rel a b) : Option.Rel C.rel (Keyed.get? p.memo a) (Keyed.get? p'.memo b) := by
  unfold Rel at h
  generalize p.memo = m, p'.memo = m' at h
  induction h with
  | nil => exact .none
  | @cons x y _ _ hxy _ ih =>
    rw [Keyed.get?, Keyed.get?]
    by_cases hx : x.1 = a
    · have hy : y.1 = b := C.left_unique hxy.1 (hx ▸ hab)
      rw [if_pos hx, if_pos hy]
      exact .some hxy.2
    · have hy : y.1 ≠ b := fun hy => hx (C.right_unique hxy.1 (hy ▸ hab))
      rw [if_neg hx, if_neg hy]
      exact ih

end Copier

/-- Copying on both sides ends with corresponding things. -/
def CopiesAlike {α β : Type} (R : (Nat → Nat → Prop) → α → β → Prop) {s s' : Store}
    (C : Coupling s s') (r : Option α × Copier) (r' : Option β × Copier) : Prop :=
  ∃ D : Coupling r.2.store r'.2.store, C.Step D ∧ r.2.Rel D.rel r'.2 ∧
    Option.Rel (R D.rel) r.1 r'.1

theorem copyEach_alike {copy : Cell → Copier → Option Cell × Copier}
    (hcopy : ∀ {c c' p p'} (C : Coupling p.store p'.store), p.Rel C.rel p' →
      Cell.Rel C.rel c c' → CopiesAlike Cell.Rel C (copy c p) (copy c' p'))
    {cs cs' : List Cell} {p p' : Copier} (C : Coupling p.store p'.store) (hp : p.Rel C.rel p')
    (hcs : List.Forall₂ (Cell.Rel C.rel) cs cs') :
    CopiesAlike (fun R => List.Forall₂ (Cell.Rel R)) C (copyEach copy cs p)
      (copyEach copy cs' p') := by
  induction cs generalizing cs' p p' with
  | nil =>
    cases hcs
    exact ⟨C, .refl C, hp, .some .nil⟩
  | cons c cs ih =>
    cases hcs with
    | @cons _ c' _ cs' hc hrest =>
      obtain ⟨D, hstep, hq, hd⟩ := hcopy C hp hc
      rw [copyEach, copyEach]
      generalize copy c p = r, copy c' p' = r' at D hstep hq hd
      obtain ⟨d, q⟩ := r
      obtain ⟨d', q'⟩ := r'
      cases hd with
      | none => exact ⟨D, hstep, hq, .none⟩
      | some hd =>
        obtain ⟨E, hstep', hr, hds⟩ := ih D hq (hstep.cells hrest)
        dsimp only
        generalize copyEach copy cs q = o, copyEach copy cs' q' = o' at E hstep' hr hds
        obtain ⟨ds, r⟩ := o
        obtain ⟨ds', r'⟩ := o'
        refine ⟨E, hstep.trans hstep', hr, ?_⟩
        cases hds with
        | none => exact .none
        | some hds => exact .some (.cons (hstep'.cell hd) hds)

/-- What corresponds is copied alike. -/
theorem copyWithin_alike (room : Nat) {c c' : Cell} {p p' : Copier}
    (C : Coupling p.store p'.store) (hp : p.Rel C.rel p') (hc : Cell.Rel C.rel c c') :
    CopiesAlike Cell.Rel C (copyWithin room c p) (copyWithin room c' p') := by
  induction room using Nat.twoStepInduction generalizing c c' p p' with
  | zero => exact ⟨C, .refl C, hp, .none⟩
  | one => exact ⟨C, .refl C, hp, .none⟩
  | more room ih _ =>
    cases hc with
    | scalar x => exact ⟨C, .refl C, hp, .some (.scalar x)⟩
    | @ref a a' ha =>
      obtain ⟨n, n', hn, hn', hrel⟩ := C.nodes ha
      have hmemo := hp.get? C ha
      rw [copyWithin, copyWithin, hn, hn']
      generalize Keyed.get? p.memo a = b, Keyed.get? p'.memo a' = b' at hmemo
      cases hmemo with
      | some hb => exact ⟨C, .refl C, hp, .some (.ref hb)⟩
      | none =>
        dsimp only
        by_cases hroom : room = 0
        · rw [if_pos hroom, if_pos hroom]
          exact ⟨C, .refl C, hp, .none⟩
        rw [if_neg hroom, if_neg hroom]
        have hempty := hrel.withCells (S := C.rel) .nil
        have hstep := C.step_push hempty
        have heach : CopiesAlike (fun R => List.Forall₂ (Cell.Rel R)) (C.push hempty)
            (copyEach (copyWithin room) n.cells
              { memo := (a, p.store.size) :: p.memo, store := p.store.push (n.withCells []) })
            (copyEach (copyWithin room) n'.cells
              { memo := (a', p'.store.size) :: p'.memo
                store := p'.store.push (n'.withCells []) }) :=
          copyEach_alike ih _ (.cons ⟨hstep.keeps ha, C.push_rel hempty⟩ (hp.mono hstep.keeps))
            (hstep.cells hrel.cells)
        obtain ⟨D, hstep', hq, hds⟩ := heach
        generalize copyEach (copyWithin room) n.cells _ = o,
          copyEach (copyWithin room) n'.cells _ = o' at D hstep' hq hds
        obtain ⟨ds, q⟩ := o
        obtain ⟨ds', q'⟩ := o'
        cases hds with
        | none => exact ⟨D, hstep.trans hstep', hq, .none⟩
        | some hds =>
          have hb := hstep'.keeps (C.push_rel hempty)
          have hnode := hrel.withCells hds
          exact ⟨D.put hb hnode, (hstep.trans hstep').trans (D.step_put hb hnode), hq,
            .some (.ref hb)⟩

/-! ### Writing -/

/-- What is written into corresponds. -/
inductive Holder.Rel (R : Nat → Nat → Prop) : Holder → Holder → Prop
  | output : Holder.Rel R .output .output
  | node {a b : Nat} (h : R a b) : Holder.Rel R (.node a) (.node b)

theorem Holder.Rel.mono {R S : Nat → Nat → Prop} (hRS : ∀ {a b}, R a b → S a b) {h h' : Holder}
    (hh : Holder.Rel R h h') : Holder.Rel S h h' := by
  cases hh with
  | output => exact .output
  | node h => exact .node (hRS h)

namespace Canvas

variable {s s' : Store}

/-- Two outputs that are come to from coupled stores are coupled again, with corresponding members.
-/
def Follow (C : Coupling s s') (c c' : Canvas) : Prop :=
  ∃ D : Coupling c.store c'.store, C.Step D ∧ Keyed.Rel (Cell.Rel D.rel) c.members c'.members

/-- The same of two outputs that come with an address. -/
def FollowAt (C : Coupling s s') (r r' : Nat × Canvas) : Prop :=
  ∃ D : Coupling r.2.store r'.2.store, C.Step D ∧
    Keyed.Rel (Cell.Rel D.rel) r.2.members r'.2.members ∧ D.rel r.1 r'.1

variable {c c' : Canvas} {h h' : Holder}

theorem membersAt_rel (C : Coupling c.store c'.store)
    (hms : Keyed.Rel (Cell.Rel C.rel) c.members c'.members) (hh : Holder.Rel C.rel h h') :
    Keyed.Rel (Cell.Rel C.rel) (c.membersAt h) (c'.membersAt h') := by
  cases hh with
  | output => exact hms
  | node hab => exact rel_getD (C.members? (.ref hab)) .nil

theorem put_follow (C : Coupling c.store c'.store)
    (hms : Keyed.Rel (Cell.Rel C.rel) c.members c'.members) (hh : Holder.Rel C.rel h h')
    (key : Text)
    {x x' : Cell} (hx : Cell.Rel C.rel x x') : Follow C (c.put h key x) (c'.put h' key x') := by
  have hmembers := membersAt_rel C hms hh
  cases hh with
  | output => exact ⟨C, .refl C, hms.put key hx⟩
  | node hab =>
    have hnode := Node.Rel.obj (hmembers.put key hx)
    exact ⟨C.put hab hnode, C.step_put hab hnode, hms⟩

theorem make_follow (C : Coupling c.store c'.store)
    (hms : Keyed.Rel (Cell.Rel C.rel) c.members c'.members) (hh : Holder.Rel C.rel h h')
    (key : Text)
    {n n' : Node} (hn : Node.Rel C.rel n n') :
    FollowAt C (c.store.size, c.make h key n) (c'.store.size, c'.make h' key n') := by
  have hstep := C.step_push hn
  have hput : Follow (C.push hn) (c.make h key n) (c'.make h' key n') :=
    put_follow _ (hstep.members hms) (hh.mono hstep.keeps) key (.ref (C.push_rel hn))
  obtain ⟨D, hstep', hms'⟩ := hput
  exact ⟨D, hstep.trans hstep', hms', hstep'.keeps (C.push_rel hn)⟩

theorem listUnder_follow (C : Coupling c.store c'.store)
    (hms : Keyed.Rel (Cell.Rel C.rel) c.members c'.members) (hh : Holder.Rel C.rel h h')
    (key : Text) : FollowAt C (c.listUnder h key) (c'.listUnder h' key) := by
  have hfound := (membersAt_rel C hms hh).get? key
  have hmade := make_follow C hms hh key (.list .nil)
  unfold listUnder
  generalize Keyed.get? (c.membersAt h) key = x, Keyed.get? (c'.membersAt h') key = x' at hfound
  cases hfound with
  | none => exact hmade
  | some hx =>
    cases hx with
    | scalar x => exact hmade
    | @ref a a' ha =>
      have helements := C.elements? (.ref ha)
      dsimp only
      generalize c.store.elements? (.ref a) = e, c'.store.elements? (.ref a') = e' at helements
      cases helements with
      | none => exact hmade
      | some _ => exact ⟨C, .refl C, hms, ha⟩

theorem objectUnder_follow (C : Coupling c.store c'.store)
    (hms : Keyed.Rel (Cell.Rel C.rel) c.members c'.members) (hh : Holder.Rel C.rel h h')
    (key : Text) : FollowAt C (c.objectUnder h key) (c'.objectUnder h' key) := by
  have hfound := (membersAt_rel C hms hh).get? key
  have hmade := make_follow C hms hh key (.obj .nil)
  unfold objectUnder
  generalize Keyed.get? (c.membersAt h) key = x, Keyed.get? (c'.membersAt h') key = x' at hfound
  cases hfound with
  | none => exact hmade
  | some hx =>
    cases hx with
    | scalar x => exact hmade
    | @ref a a' ha =>
      have hmembers := C.members? (.ref ha)
      dsimp only
      generalize c.store.members? (.ref a) = e, c'.store.members? (.ref a') = e' at hmembers
      cases hmembers with
      | none => exact hmade
      | some _ => exact ⟨C, .refl C, hms, ha⟩

theorem rel_tail {R : Cell → Cell → Prop} {cs cs' : List Cell} (h : List.Forall₂ R cs cs') :
    List.Forall₂ R cs.tail cs'.tail := by
  cases h with
  | nil => exact .nil
  | cons _ h => exact h

theorem rel_head? {R : Cell → Cell → Prop} {cs cs' : List Cell} (h : List.Forall₂ R cs cs') :
    Option.Rel R cs.head? cs'.head? := by
  cases h with
  | nil => exact .none
  | cons h _ => exact .some h

theorem firstObject_follow (C : Coupling c.store c'.store)
    (hms : Keyed.Rel (Cell.Rel C.rel) c.members c'.members) {a a' : Nat} (ha : C.rel a a') :
    FollowAt C (c.firstObject a) (c'.firstObject a') := by
  have hcells := rel_getD (C.elements? (.ref ha)) (List.Forall₂.nil (R := Cell.Rel C.rel))
  have hfirst := rel_head? hcells
  have hempty : Node.Rel C.rel (.obj []) (.obj []) := .obj .nil
  have hstep := C.step_push hempty
  have hnode : Node.Rel (C.push hempty).rel
      (.list (.ref c.store.size :: ((c.store.elements? (.ref a)).getD []).tail))
      (.list (.ref c'.store.size :: ((c'.store.elements? (.ref a')).getD []).tail)) :=
    .list (.cons (.ref (C.push_rel hempty)) (hstep.cells (rel_tail hcells)))
  have hmade : FollowAt C
      (c.store.size, { c with
        store := (c.store.push (.obj [])).put a
          (.list (.ref c.store.size :: ((c.store.elements? (.ref a)).getD []).tail)) })
      (c'.store.size, { c' with
        store := (c'.store.push (.obj [])).put a'
          (.list (.ref c'.store.size :: ((c'.store.elements? (.ref a')).getD []).tail)) }) :=
    ⟨(C.push hempty).put (hstep.keeps ha) hnode,
      hstep.trans ((C.push hempty).step_put (hstep.keeps ha) hnode), hstep.members hms,
      C.push_rel hempty⟩
  unfold firstObject
  dsimp only
  generalize ((c.store.elements? (.ref a)).getD []).head? = x,
    ((c'.store.elements? (.ref a')).getD []).head? = x' at hfirst
  cases hfirst with
  | none => exact hmade
  | some hx =>
    cases hx with
    | scalar x => exact hmade
    | @ref b b' hb =>
      have hmembers := C.members? (.ref hb)
      dsimp only
      generalize c.store.members? (.ref b) = e, c'.store.members? (.ref b') = e' at hmembers
      cases hmembers with
      | none => exact hmade
      | some _ => exact ⟨C, .refl C, hms, hb⟩

/-- What corresponds is written alike. -/
theorem write_follow (target : Target) (C : Coupling c.store c'.store)
    (hms : Keyed.Rel (Cell.Rel C.rel) c.members c'.members) (hh : Holder.Rel C.rel h h')
    {x x' : Cell} (hx : Cell.Rel C.rel x x') :
    Follow C (c.write h target x) (c'.write h' target x') := by
  induction target generalizing c c' h h' with
  | nil => exact ⟨C, .refl C, hms⟩
  | cons slot rest ih =>
    cases slot with
    | field k =>
      cases rest with
      | nil => exact put_follow C hms hh k hx
      | cons next rest =>
        obtain ⟨D, hstep, hms', ha⟩ := objectUnder_follow C hms hh k
        obtain ⟨E, hstep', hms''⟩ := ih D hms' (.node ha) (hstep.cell hx)
        exact ⟨E, hstep.trans hstep', hms''⟩
    | array k =>
      obtain ⟨D, hstep, hms', ha⟩ := listUnder_follow C hms hh k
      cases rest with
      | nil =>
        have hlist := D.elements? (hstep.cell hx)
        have hold := rel_getD (D.elements? (.ref ha)) (List.Forall₂.nil (R := Cell.Rel D.rel))
        have hnode : Node.Rel D.rel (.list (((c.listUnder h k).2.store.elements?
              (.ref (c.listUnder h k).1)).getD [] ++ [x]))
            (.list (((c'.listUnder h' k).2.store.elements?
              (.ref (c'.listUnder h' k).1)).getD [] ++ [x'])) :=
          .list (List.rel_append hold (.cons (hstep.cell hx) .nil))
        rw [write, write]
        dsimp only
        generalize (c.listUnder h k).2.store.elements? x = e,
          (c'.listUnder h' k).2.store.elements? x' = e' at hlist
        cases hlist with
        | none => exact ⟨D.put ha hnode, hstep.trans (D.step_put ha hnode), hms'⟩
        | some hcells =>
          obtain ⟨E, hstep', hms'', -⟩ :=
            make_follow D hms' (hh.mono hstep.keeps) k (.list hcells)
          exact ⟨E, hstep.trans hstep', hms''⟩
      | cons next rest =>
        obtain ⟨E, hstep', hms'', hb⟩ := firstObject_follow D hms' ha
        obtain ⟨F, hstep'', hms'''⟩ := ih E hms'' (.node hb) ((hstep.trans hstep').cell hx)
        exact ⟨F, (hstep.trans hstep').trans hstep'', hms'''⟩

theorem writeOptional_follow (text : Text) (C : Coupling c.store c'.store)
    (hms : Keyed.Rel (Cell.Rel C.rel) c.members c'.members) {x x' : Option Cell}
    (hx : Option.Rel (Cell.Rel C.rel) x x') :
    Follow C (c.writeOptional text x) (c'.writeOptional text x') := by
  cases hx with
  | none => exact ⟨C, .refl C, hms⟩
  | some hx => exact write_follow _ C hms .output hx

end Canvas

end Reshape

import Reshape.Document
import Reshape.Proofs.Json.Pieces
import Reshape.Proofs.Store.Tree

/-!
# Documents of cells

What a cell leads to is written as the value that it unfolds to: the pieces are the same up to the
first that belongs to too many containers (`Json.cut_cellPieces`), and no later piece has a say in
what is written (`layOut_of_unfolds`) or in the size (`documentSize_of_unfolds`). A cell of which
every piece can be printed unfolds to a value (`Json.exists_unfolds`), since no node leads back to
itself and the nodes do not nest too deep.
-/

namespace Reshape

namespace Store

variable {s : Store} {c : Cell} {v w : Value}

/-- What a cell leads to is a value, where a cell that leads nowhere stands for an empty list. -/
def Unfolds (s : Store) (c : Cell) (v : Value) : Prop :=
  ∃ t : Tree, t.Standing s ∧ t.Leaves s.Settles ∧ t.cell = c ∧ t.value = v

theorem Shows.unfolds (h : s.Shows c v) : s.Unfolds c v :=
  let ⟨t, ht, hfull, hcell, hvalue⟩ := h
  ⟨t, ht, hfull.settled s, hcell, hvalue⟩

theorem Unfolds.unique (h : s.Unfolds c v) (h' : s.Unfolds c w) : v = w := by
  obtain ⟨t, ht, hsettled, rfl, rfl⟩ := h
  obtain ⟨u, hu, hsettled', hcell, rfl⟩ := h'
  rw [ht.unique hsettled hu hsettled' hcell.symm]

end Store

namespace Json

variable {limit : Nat} {ps ps' qs qs' : List Piece}

/-! ### Pieces up to a depth -/

/-- The pieces before the first of too many containers, with a piece that stands for the rest. -/
def cut (limit : Nat) : List Piece → List Piece
  | [] => []
  | p :: ps => if limit < p.depth then [{ depth := limit + 1, text := [] }] else p :: cut limit ps

theorem cut_cut (limit : Nat) (ps : List Piece) : cut limit (cut limit ps) = cut limit ps := by
  induction ps with
  | nil => rfl
  | cons p ps ih =>
    rw [cut]
    split
    · rw [cut, if_pos (Nat.lt_succ_self limit)]
    · next hp => rw [cut, if_neg hp, ih]

theorem cut_cut_append (limit : Nat) (ps qs : List Piece) :
    cut limit (cut limit ps ++ cut limit qs) = cut limit (ps ++ qs) := by
  induction ps with
  | nil => exact cut_cut limit qs
  | cons p ps ih =>
    rw [cut, List.cons_append]
    split
    · next hp => rw [List.cons_append, cut, cut, if_pos (Nat.lt_succ_self limit), if_pos hp]
    · next hp => rw [List.cons_append, cut, cut, if_neg hp, if_neg hp, ih]

theorem cut_append_congr (h : cut limit ps = cut limit ps') (h' : cut limit qs = cut limit qs') :
    cut limit (ps ++ qs) = cut limit (ps' ++ qs') := by
  rw [← cut_cut_append, h, h', cut_cut_append]

theorem cut_cons_congr (p : Piece) (h : cut limit ps = cut limit ps') :
    cut limit (p :: ps) = cut limit (p :: ps') :=
  @cut_append_congr limit [p] [p] ps ps' rfl h

theorem cut_flatMap_congr {α β : Type} {f : α → List Piece} {g : β → List Piece} {r : β → α}
    {xs : List β} (h : ∀ x ∈ xs, cut limit (f (r x)) = cut limit (g x)) :
    cut limit ((xs.map r).flatMap f) = cut limit (xs.flatMap g) := by
  induction xs with
  | nil => rfl
  | cons x xs ih =>
    rw [List.map_cons, List.flatMap_cons, List.flatMap_cons]
    exact cut_append_congr (h x List.mem_cons_self) (ih fun y hy => h y (List.mem_cons_of_mem _ hy))

theorem cut_eq_self (h : ∀ p ∈ ps, p.depth ≤ limit) : cut limit ps = ps := by
  induction ps with
  | nil => rfl
  | cons p ps ih =>
    rw [List.forall_mem_cons] at h
    rw [cut, if_neg (Nat.not_lt.mpr h.1), ih h.2]

/-- What is cut to one piece. -/
theorem cut_eq_of_deep {p : Piece} (h : limit < p.depth) :
    cut limit (p :: ps) = [{ depth := limit + 1, text := [] }] := by
  rw [cut, if_pos h]

theorem flaw?_of_deep {p : Piece} (h : nestingLimit < p.depth) : p.flaw? = some .tooDeep := by
  rw [Piece.flaw?, if_pos h]

theorem findSome?_flaw?_cut (ps : List Piece) :
    (cut nestingLimit ps).findSome? Piece.flaw? = ps.findSome? Piece.flaw? := by
  induction ps with
  | nil => rfl
  | cons p ps ih =>
    rw [cut]
    split
    · next hp =>
      rw [List.findSome?_cons, List.findSome?_cons, flaw?_of_deep hp,
        flaw?_of_deep (Nat.lt_succ_self nestingLimit)]
    · rw [List.findSome?_cons, List.findSome?_cons, ih]

theorem writtenPieces_of_deep {memory : Nat} {p : Piece} (h : nestingLimit < p.depth)
    (ps : List Piece) : writtenPieces memory (p :: ps) = ([], some (.flaw .tooDeep)) := by
  rw [writtenPieces, pieceError?, flaw?_of_deep h]

theorem writtenPieces_cut (memory : Nat) (ps : List Piece) :
    writtenPieces memory (cut nestingLimit ps) = writtenPieces memory ps := by
  induction ps with
  | nil => rfl
  | cons p ps ih =>
    rw [cut]
    split
    · next hp =>
      rw [writtenPieces_of_deep hp, writtenPieces_of_deep (Nat.lt_succ_self nestingLimit)]
    · rw [writtenPieces, writtenPieces, ih]

theorem depth_le_of_flaw? {p : Piece} (h : p.flaw? = none) : p.depth ≤ nestingLimit := by
  unfold Piece.flaw? at h
  split at h
  · cases h
  · next hdepth => exact Nat.le_of_not_lt hdepth

theorem circular_eq_false_of_flaw? {p : Piece} (h : p.flaw? = none) : p.circular = false := by
  unfold Piece.flaw? at h
  split at h
  · cases h
  · split at h
    · cases h
    · next hcircular => exact Bool.eq_false_iff.mpr hcircular

/-! ### The pieces of a cell -/

theorem elementPieces_eq_flatMap (layout : Layout) (depth : Nat) (xs : List Value) :
    elementPieces layout depth xs =
      xs.flatMap (piecesAt layout depth (layout.separator depth)) := by
  induction xs with
  | nil => rfl
  | cons x xs ih => rw [elementPieces, List.flatMap_cons, ih]

theorem memberPieces_eq_flatMap (layout : Layout) (depth : Nat) (ms : List (Text × Value)) :
    memberPieces layout depth ms = ms.flatMap fun (k, v) =>
      piecesOf depth [layout.separator depth, printString k, colon] ++
        piecesAt layout depth [] v := by
  induction ms with
  | nil => rfl
  | cons m ms ih => rw [memberPieces, List.flatMap_cons, ih]

theorem cut_piecesAt_of_lt (layout : Layout) {depth : Nat} (h : limit < depth) (lead : Text)
    (v : Value) (ps : List Piece) :
    cut limit (piecesAt layout depth lead v ++ ps) = [{ depth := limit + 1, text := [] }] := by
  have hfirst : ∃ p rest, piecesAt layout depth lead v = p :: rest ∧ p.depth = depth := by
    cases v with
    | list xs =>
      cases xs with
      | nil => exact ⟨_, _, by rw [piecesAt], rfl⟩
      | cons x xs => exact ⟨_, _, by rw [piecesAt]; rfl, rfl⟩
    | obj ms =>
      cases ms with
      | nil => exact ⟨_, _, by rw [piecesAt], rfl⟩
      | cons m ms => exact ⟨_, _, by rw [piecesAt]; rfl, rfl⟩
    | _ => exact ⟨_, _, by rw [piecesAt], rfl⟩
  obtain ⟨p, rest, hpieces, hp⟩ := hfirst
  rw [hpieces, List.cons_append, cut_eq_of_deep (hp ▸ h)]

/-- A container at the limit is cut after what comes before it. -/
theorem cut_piecesAt_list (layout : Layout) (depth : Nat) (lead : Text) (xs : List Value) :
    cut depth (piecesAt layout depth lead (.list xs)) =
      cut depth [{ depth, text := lead }, { depth := depth + 1, text := [] }] := by
  have hlt := Nat.lt_succ_self depth
  cases xs with
  | nil =>
    rw [piecesAt]
    exact cut_cons_congr _ ((cut_eq_of_deep hlt).trans (cut_eq_of_deep hlt).symm)
  | cons x xs =>
    rw [piecesAt, List.cons_append, List.cons_append, List.append_assoc]
    exact cut_cons_congr _ ((cut_piecesAt_of_lt layout hlt _ _ _).trans (cut_eq_of_deep hlt).symm)

theorem cut_piecesAt_obj (layout : Layout) (depth : Nat) (lead : Text) (ms : List (Text × Value)) :
    cut depth (piecesAt layout depth lead (.obj ms)) =
      cut depth [{ depth, text := lead }, { depth := depth + 1, text := [] }] := by
  have hlt := Nat.lt_succ_self depth
  cases ms with
  | nil =>
    rw [piecesAt]
    exact cut_cons_congr _ ((cut_eq_of_deep hlt).trans (cut_eq_of_deep hlt).symm)
  | cons m ms =>
    rw [piecesAt]
    exact cut_cons_congr _ ((cut_eq_of_deep hlt).trans (cut_eq_of_deep hlt).symm)

variable {s : Store} {layout : Layout}

/-- A tree is inside of these nodes, each of which unfolds to a larger tree. -/
def Inside (s : Store) (inside : List Nat) (t : Tree) : Prop :=
  ∀ a ∈ inside, ∃ u : Tree, u.Standing s ∧ u.Leaves s.Settles ∧ u.cell = .ref a ∧
    sizeOf t < sizeOf u

theorem Inside.contains_eq_false {inside : List Nat} {t : Tree} {a : Nat} (h : Inside s inside t)
    (ht : t.Standing s) (hsettled : t.Leaves s.Settles) (hcell : t.cell = .ref a) :
    inside.contains a = false := by
  rw [← Bool.not_eq_true, List.contains_iff_mem]
  intro hmem
  obtain ⟨u, hu, husettled, hucell, hlt⟩ := h a hmem
  rw [ht.unique hsettled hu husettled (hcell.trans hucell.symm)] at hlt
  exact Nat.lt_irrefl _ hlt

theorem Inside.cons {inside : List Nat} {t part : Tree} {a : Nat} (h : Inside s inside t)
    (ht : t.Standing s) (hsettled : t.Leaves s.Settles) (hcell : t.cell = .ref a)
    (hlt : sizeOf part < sizeOf t) : Inside s (a :: inside) part := by
  intro b hb
  rcases List.mem_cons.mp hb with rfl | hb
  · exact ⟨t, ht, hsettled, hcell, hlt⟩
  · obtain ⟨u, hu, husettled, hucell, hlt'⟩ := h b hb
    exact ⟨u, hu, husettled, hucell, Nat.lt_trans hlt hlt'⟩

/-- Up to the limit, the pieces of a cell are those of the value that it unfolds to. -/
theorem cut_cellPieces (layout : Layout) {t : Tree} (ht : t.Standing s)
    (hsettled : t.Leaves s.Settles) (fuel : Nat)
    {inside : List Nat} (hinside : Inside s inside t) (depth : Nat) (lead : Text) :
    cut (depth + fuel) (cellPieces s layout fuel inside depth lead t.cell) =
      cut (depth + fuel) (piecesAt layout depth lead t.value) := by
  induction t generalizing fuel inside depth lead with
  | leaf c v =>
    rw [Tree.leaves_leaf] at hsettled
    rw [Tree.cell_leaf, Tree.value_leaf]
    cases hsettled with
    | scalar x => rw [cellPieces]
    | nowhere h =>
      cases fuel with
      | zero => rw [cellPieces, Nat.add_zero, cut_piecesAt_list]
      | succ fuel => rw [cellPieces, h]
  | list a xs ih =>
    have hcontains := hinside.contains_eq_false ht hsettled rfl
    have hpart := fun (x : Tree) (hx : x ∈ xs) =>
      hinside.cons ht hsettled rfl (Tree.sizeOf_lt_list (a := a) hx)
    rw [Tree.standing_list] at ht
    rw [Tree.leaves_list] at hsettled
    rw [Tree.cell_list, Tree.value_list]
    cases fuel with
    | zero => rw [cellPieces, Nat.add_zero, cut_piecesAt_list]
    | succ fuel =>
      rw [cellPieces, ht.1]
      cases xs with
      | nil => rfl
      | cons x xs =>
        have hx := List.mem_cons_self (a := x) (l := xs)
        rw [List.map_cons, List.map_cons]
        dsimp only
        rw [hcontains, if_neg Bool.false_ne_true, piecesAt, elementPieces_eq_flatMap,
          List.flatMap_map Tree.value, Nat.add_succ, ← Nat.succ_add]
        refine cut_append_congr (cut_append_congr (cut_cons_congr _ ?_) ?_) rfl
        · exact ih x hx (ht.2 x hx) (hsettled x hx) fuel (hpart x hx) _ _
        · refine cut_flatMap_congr fun y hy => ?_
          have hy := List.mem_cons_of_mem x hy
          exact ih y hy (ht.2 y hy) (hsettled y hy) fuel (hpart y hy) _ _
  | obj a ms ih =>
    have hcontains := hinside.contains_eq_false ht hsettled rfl
    have hpart := fun (m : Text × Tree) (hm : m ∈ ms) =>
      hinside.cons ht hsettled rfl (Tree.sizeOf_lt_obj (a := a) hm)
    rw [Tree.standing_obj] at ht
    rw [Tree.leaves_obj] at hsettled
    rw [Tree.cell_obj, Tree.value_obj]
    cases fuel with
    | zero => rw [cellPieces, Nat.add_zero, cut_piecesAt_obj]
    | succ fuel =>
      rw [cellPieces, ht.1]
      cases ms with
      | nil => rfl
      | cons m ms =>
        have hm := List.mem_cons_self (a := m) (l := ms)
        rw [Branches.cells, List.map_cons, Branches.values, List.map_cons]
        dsimp only
        rw [hcontains, if_neg Bool.false_ne_true, piecesAt, memberPieces_eq_flatMap,
          List.flatMap_map (fun m : Text × Tree => (m.1, m.2.value)), Nat.add_succ, ← Nat.succ_add]
        refine cut_append_congr
          (cut_append_congr (cut_append_congr (cut_cons_congr _ rfl) ?_) ?_) rfl
        · exact ih m hm (ht.2 m hm) (hsettled m hm) fuel (hpart m hm) _ _
        · refine cut_flatMap_congr fun n hn => cut_append_congr rfl ?_
          have hn := List.mem_cons_of_mem m hn
          exact ih n hn (ht.2 n hn) (hsettled n hn) fuel (hpart n hn) _ _

theorem cut_cellDrawing {c : Cell} {v : Value} (h : s.Unfolds c v) (layout : Layout) :
    cut nestingLimit (cellDrawing s c layout) = cut nestingLimit (drawing v layout) := by
  obtain ⟨t, ht, hsettled, rfl, rfl⟩ := h
  have hcut := cut_cellPieces layout ht hsettled nestingLimit (show Inside s [] t from nofun) 0 []
  rwa [Nat.zero_add] at hcut

/-! ### What can be printed -/

theorem exists_map_eq {α β : Type} {f : β → α} {P : β → Prop} {as : List α}
    (h : ∀ a ∈ as, ∃ b, f b = a ∧ P b) : ∃ bs : List β, bs.map f = as ∧ ∀ b ∈ bs, P b := by
  induction as with
  | nil => exact ⟨[], rfl, nofun⟩
  | cons a as ih =>
    rw [List.forall_mem_cons] at h
    obtain ⟨b, rfl, hb⟩ := h.1
    obtain ⟨bs, rfl, hbs⟩ := ih h.2
    exact ⟨b :: bs, rfl, List.forall_mem_cons.mpr ⟨hb, hbs⟩⟩

theorem unfolds_list {a : Nat} {cs : List Cell} (ha : s.get? a = some (.list cs))
    (h : ∀ c ∈ cs, ∃ v, s.Unfolds c v) : ∃ v, s.Unfolds (.ref a) v := by
  obtain ⟨xs, rfl, hxs⟩ := exists_map_eq
    (f := Tree.cell) (P := fun t => t.Standing s ∧ t.Leaves s.Settles) fun c hc => by
      obtain ⟨v, t, ht, hsettled, hcell, -⟩ := h c hc
      exact ⟨t, hcell, ht, hsettled⟩
  exact ⟨_, .list a xs, (Tree.standing_list a xs s).mpr ⟨ha, fun t ht => (hxs t ht).1⟩,
    (Tree.leaves_list a xs _).mpr fun t ht => (hxs t ht).2, rfl, rfl⟩

theorem unfolds_obj {a : Nat} {ms : Keyed Text Cell} (ha : s.get? a = some (.obj ms))
    (h : ∀ m ∈ ms, ∃ v, s.Unfolds m.2 v) : ∃ v, s.Unfolds (.ref a) v := by
  obtain ⟨bs, rfl, hbs⟩ := exists_map_eq (f := fun b : Text × Tree => (b.1, b.2.cell))
    (P := fun b => b.2.Standing s ∧ b.2.Leaves s.Settles) fun m hm => by
      obtain ⟨v, t, ht, hsettled, hcell, -⟩ := h m hm
      exact ⟨(m.1, t), by rw [hcell], ht, hsettled⟩
  exact ⟨_, .obj a bs, (Tree.standing_obj a bs s).mpr ⟨ha, fun b hb => (hbs b hb).1⟩,
    (Tree.leaves_obj a bs _).mpr fun b hb => (hbs b hb).2, rfl, rfl⟩

/-- A cell unfolds if nothing is in the way of printing what it leads to. -/
theorem exists_unfolds_of_cellPieces {fuel : Nat} {inside : List Nat} {depth : Nat} {lead : Text}
    {c : Cell} (hlimit : depth + fuel = nestingLimit)
    (h : ∀ p ∈ cellPieces s layout fuel inside depth lead c, p.flaw? = none) :
    ∃ v, s.Unfolds c v := by
  induction fuel generalizing inside depth lead c with
  | zero =>
    cases c with
    | scalar x => exact ⟨_, (s.shows_scalar x).unfolds⟩
    | ref a =>
      rw [cellPieces] at h
      have hdepth := depth_le_of_flaw? (h _ (List.mem_cons_of_mem _ (List.mem_singleton.mpr rfl)))
      dsimp only at hdepth
      omega
  | succ fuel ih =>
    cases c with
    | scalar x => exact ⟨_, (s.shows_scalar x).unfolds⟩
    | ref a =>
      have hnext : depth + 1 + fuel = nestingLimit := by omega
      let start : Piece := { depth, text := lead }
      let again : Piece := { depth := depth + 1, text := [], circular := true }
      have hcircular : ¬ ∀ p ∈ [start, again], p.flaw? = none := fun h => by
        have hplain := circular_eq_false_of_flaw?
          (h _ (List.mem_cons_of_mem _ (List.mem_singleton.mpr rfl)))
        cases hplain
      rw [cellPieces] at h
      split at h
      · next ha =>
        exact ⟨.list [], .leaf (.ref a) (.list []), Tree.standing_leaf _ _ s,
          (Tree.leaves_leaf _ _ _).mpr (.nowhere ha), rfl, Tree.value_leaf _ _⟩
      · next ha => exact unfolds_list ha fun c hc => absurd hc List.not_mem_nil
      · next ha => exact unfolds_obj ha fun m hm => absurd hm List.not_mem_nil
      · next c cs ha =>
        split at h
        · exact (hcircular h).elim
        · simp only [List.mem_append, List.mem_cons, List.mem_flatMap] at h
          refine unfolds_list ha (List.forall_mem_cons.mpr ⟨?_, fun d hd => ?_⟩)
          · exact ih hnext fun p hp => h p (.inl (.inl (.inr hp)))
          · exact ih hnext fun p hp => h p (.inl (.inr ⟨d, hd, hp⟩))
      · next k c ms ha =>
        split at h
        · exact (hcircular h).elim
        · simp only [List.mem_append, List.mem_cons, List.mem_flatMap] at h
          refine unfolds_obj ha (List.forall_mem_cons.mpr ⟨?_, fun m hm => ?_⟩)
          · exact ih hnext fun p hp => h p (.inl (.inl (.inr hp)))
          · exact ih hnext fun p hp => h p (.inl (.inr ⟨m, hm, .inr hp⟩))

theorem exists_unfolds {c : Cell} (h : ∀ p ∈ cellDrawing s c layout, p.flaw? = none) :
    ∃ v, s.Unfolds c v :=
  exists_unfolds_of_cellPieces (Nat.zero_add _) h

end Json

/-! ### Sizes and files -/

variable {s : Store} {c : Cell} {v : Value}

/-- The size of a document is that of the value which is written. -/
theorem documentSize_of_unfolds (h : s.Unfolds c v) :
    documentSize s c = drawingSize (Json.drawing v) := by
  have hcut := Json.cut_cellDrawing h .compact
  have hflaw : (Json.cellDrawing s c .compact).findSome? Json.Piece.flaw? =
      (Json.drawing v .compact).findSome? Json.Piece.flaw? := by
    rw [← Json.findSome?_flaw?_cut, hcut, Json.findSome?_flaw?_cut]
  rw [documentSize, drawingSize, drawingSize, hflaw]
  cases hnone : (Json.drawing v .compact).findSome? Json.Piece.flaw? with
  | some flaw => cases flaw <;> rfl
  | none =>
    rw [hnone, List.findSome?_eq_none_iff] at hflaw
    rw [List.findSome?_eq_none_iff] at hnone
    rw [Json.cut_eq_self fun p hp => Json.depth_le_of_flaw? (hflaw p hp),
      Json.cut_eq_self fun p hp => Json.depth_le_of_flaw? (hnone p hp)] at hcut
    rw [hcut]

/-- A storable value has a size exactly if it does not nest too deep. -/
theorem exists_drawingSize_iff (hv : v.Storable) :
    (∃ n, drawingSize (Json.drawing v) = .ok n) ↔ v.depth ≤ Json.nestingLimit := by
  have hflaw : ∀ p ∈ Json.drawing v .compact, ∀ flaw, p.flaw? = some flaw → flaw = .tooDeep := by
    intro p hp flaw h
    have hplain := (Json.within_of_mem_piecesAt .compact 0 [] v p hp).plain
    have hdigits := Json.digits_le_of_mem_piecesAt hv .compact 0 [] p hp
    rw [Json.Piece.flaw?, hplain, if_neg Bool.false_ne_true, if_neg (Nat.not_lt.mpr hdigits)] at h
    split at h <;> cases h
    rfl
  rw [drawingSize]
  cases hfirst : (Json.drawing v .compact).findSome? Json.Piece.flaw? with
  | none =>
    refine ⟨fun _ => ?_, fun _ => ⟨_, rfl⟩⟩
    rw [List.findSome?_eq_none_iff] at hfirst
    obtain ⟨p, hp, hdepth⟩ := Json.exists_mem_piecesAt .compact 0 [] v
    have hle := Json.depth_le_of_flaw? (hfirst p hp)
    omega
  | some flaw =>
    obtain ⟨p, hp, hpflaw⟩ := List.exists_of_findSome?_eq_some hfirst
    obtain rfl := hflaw p hp flaw hpflaw
    refine ⟨fun h => ?_, fun hle => ?_⟩
    · obtain ⟨n, hn⟩ := h
      cases hn
    · rw [Json.flaw?_eq_none hv hle hp] at hpflaw
      cases hpflaw

theorem layOut_of_unfolds (h : s.Unfolds c v) (memory : Nat) (path : PathName)
    (indent : Option Int) :
    layOut memory path indent (Json.cellDrawing s c) =
      layOut memory path indent (Json.drawing v) := by
  have hwritten : ∀ layout, writtenPieces memory (filePieces layout (Json.cellDrawing s c)) =
      writtenPieces memory (filePieces layout (Json.drawing v)) := fun layout => by
    rw [← Json.writtenPieces_cut, filePieces,
      Json.cut_append_congr (Json.cut_cellDrawing h layout) rfl, Json.writtenPieces_cut]
    rfl
  unfold layOut
  split
  · rfl
  · rw [hwritten]

end Reshape

import Reshape.Proofs.Json.RoundTrip
import Reshape.Proofs.Text
import Reshape.Storage.Workspace

/-!
# Documents in files

A document is written to a file in pieces, none of which is in the way of the others if the value is
storable and not too deep: no piece belongs to more containers than the value nests
(`within_of_mem_piecesAt`), and none has a symbol in it that cannot be encoded
(`all_isKept_printAt`). So what gets into the file is the document, if there is memory for its
pieces (`writtenPieces_filePieces`).
-/

namespace Reshape

namespace Json

/-! ### Symbols -/

/-- A character that is stored as it is. -/
def isKept : Symbol → Bool :=
  Symbol.satisfies (· != '\r')

theorem all_isKept_ofChars {cs : List Char} (h : cs.all (· != '\r') = true) :
    (Text.ofChars cs).all isKept = true :=
  (Text.all_satisfies_ofChars _ cs).trans h

theorem all_isKept_margin (layout : Layout) (depth : Nat) :
    (layout.margin depth).all isKept = true := by
  cases layout with
  | compact => rfl
  | indented width =>
    simp only [Layout.margin, List.all_cons, List.all_replicate]
    split <;> rfl

theorem all_isKept_separator (layout : Layout) (depth : Nat) :
    (layout.separator depth).all isKept = true := by
  cases layout with
  | compact => rfl
  | indented width =>
    rw [Layout.separator, List.all_cons, all_isKept_margin]
    rfl

theorem all_ne_of_all_isDigit {cs : List Char} (h : cs.all Char.isDigit = true) :
    cs.all (· != '\r') = true := by
  refine List.all_eq_true.mpr fun c hc => ?_
  have hdigit := List.all_eq_true.mp h c hc
  rw [bne_iff_ne]
  rintro rfl
  cases hdigit

theorem all_isKept_escapeSymbol {s : Symbol} (h : s.isHalf = false) :
    (escapeSymbol s).all isKept = true := by
  cases s with
  | half offset => cases h
  | char c =>
    refine all_isKept_ofChars ?_
    rcases escapeChar_cases c with ⟨letter, he, hletter⟩ | ⟨he, hlow⟩ | ⟨he, -, -, hlow⟩ <;> rw [he]
    · have hne : letter ≠ '\r' := by
        rintro rfl
        cases hletter
      simp [hne]
    · have hhex : ∀ n < 0x20, (Quoted.hex 4 n).all (· != '\r') = true := by decide
      exact hhex _ hlow
    · have hne : c ≠ '\r' := by
        rintro rfl
        simp at hlow
      simp [hne]

theorem all_isKept_printString {s : Text} (h : ∀ c ∈ s, c.isHalf = false) :
    (printString s).all isKept = true := by
  have hs : (s.flatMap escapeSymbol).all isKept = true := by
    rw [List.all_flatMap, List.all_eq_true]
    exact fun c hc => all_isKept_escapeSymbol (h c hc)
  rw [printString, List.cons_append, List.all_cons, List.all_append, hs]
  rfl

theorem all_isKept_of_spells {token : NumberToken} {cs : List Char} (h : token.Spells cs) :
    (Text.ofChars cs).all isKept = true := by
  refine all_isKept_ofChars ?_
  obtain ⟨negative, hw, hf, hp⟩ := h
  next whole fraction power exponent =>
  have hwhole := all_ne_of_all_isDigit (Numeral.all_isDigit_of_isCanonical hw)
  have hfraction : (NumberToken.fractionChars fraction).all (· != '\r') = true := by
    cases fraction with
    | nil => rfl
    | cons c cs =>
      change ('.' :: c :: cs).all (· != '\r') = true
      rw [List.all_cons, all_ne_of_all_isDigit hf]
      rfl
  have hpower : power.all (· != '\r') = true := by
    cases hp with
    | absent => rfl
    | present negative _ hd =>
      rw [List.all_cons, List.all_cons, all_ne_of_all_isDigit hd]
      cases negative <;> rfl
  cases negative <;>
    simp only [DoubleStyle.signed, if_true, if_false, Bool.false_eq_true, List.all_cons,
      List.all_append, hwhole, hfraction, hpower] <;> rfl

theorem all_isKept_double (x : Double) :
    (Text.ofChars (documentDoubles.write x)).all isKept = true := by
  cases x with
  | nan => decide
  | infinity negative => cases negative <;> decide
  | finite negative m q fits =>
    obtain ⟨token, hspells, -⟩ := exists_spells_write negative fits
    exact all_isKept_of_spells hspells

theorem all_isKept_elements {layout : Layout} {nested : Nat} {xs : List Value}
    (h : ∀ x ∈ xs, (printAt layout nested x).all isKept = true) :
    (printElements layout nested xs).all isKept = true := by
  induction xs with
  | nil => rfl
  | cons x xs ih =>
    rw [printElements, List.all_append, List.all_append, all_isKept_separator,
      h x List.mem_cons_self, ih fun y hy => h y (List.mem_cons_of_mem _ hy)]
    rfl

theorem all_isKept_members {layout : Layout} {nested : Nat} {ms : List (Text × Value)}
    (hnames : ∀ m ∈ ms, ∀ c ∈ m.1, c.isHalf = false)
    (h : ∀ m ∈ ms, (printAt layout nested m.2).all isKept = true) :
    (printMembers layout nested ms).all isKept = true := by
  induction ms with
  | nil => rfl
  | cons m ms ih =>
    rw [printMembers, List.all_append, List.all_append, List.all_append, List.all_append,
      all_isKept_separator, all_isKept_printString (hnames m List.mem_cons_self),
      h m List.mem_cons_self, ih (fun n hn => hnames n (List.mem_cons_of_mem _ hn))
        fun n hn => h n (List.mem_cons_of_mem _ hn)]
    rfl

/-- No half of a surrogate pair is written, and no carriage return. -/
theorem all_isKept_printAt {v : Value} (hv : v.Storable) (layout : Layout) (nested : Nat) :
    (printAt layout nested v).all isKept = true := by
  induction hv generalizing nested with
  | null => rfl
  | bool b => cases b <;> rfl
  | int h =>
    obtain ⟨token, hspells, -⟩ := exists_spells_printInt h
    exact all_isKept_of_spells hspells
  | double x => exact all_isKept_double x
  | str h => exact all_isKept_printString h
  | @list xs _ ih =>
    cases xs with
    | nil => rfl
    | cons x xs =>
      have hx := ih x List.mem_cons_self (nested + 1)
      have hxs := all_isKept_elements fun y hy => ih y (List.mem_cons_of_mem _ hy) (nested + 1)
      simp only [printAt, List.cons_append, List.all_cons, List.all_append, all_isKept_margin, hx,
        hxs]
      rfl
  | @obj ms _ hnames _ ih =>
    cases ms with
    | nil => rfl
    | cons m ms =>
      have hname := all_isKept_printString (hnames m List.mem_cons_self)
      have hm := ih m List.mem_cons_self (nested + 1)
      have hms := all_isKept_members (fun n hn => hnames n (List.mem_cons_of_mem _ hn))
        fun n hn => ih n (List.mem_cons_of_mem _ hn) (nested + 1)
      simp only [printAt, List.cons_append, List.all_cons, List.all_append, all_isKept_margin,
        hname, hm, hms]
      rfl

/-! ### Depths -/

/-- A piece of so many containers at most, and of none inside of itself. -/
structure Piece.Within (limit : Nat) (p : Piece) : Prop where
  depth_le : p.depth ≤ limit
  plain : p.circular = false

theorem Piece.Within.mono {limit limit' : Nat} {p : Piece} (h : p.Within limit)
    (hle : limit ≤ limit') : p.Within limit' :=
  ⟨Nat.le_trans h.depth_le hle, h.plain⟩

theorem within_of_mem_piecesOf {depth limit : Nat} {texts : List Text} {p : Piece}
    (h : p ∈ piecesOf depth texts) (hle : depth ≤ limit) : p.Within limit := by
  obtain ⟨text, -, rfl⟩ := List.mem_map.mp h
  exact ⟨hle, rfl⟩

mutual

theorem within_of_mem_piecesAt (layout : Layout) (depth : Nat) (lead : Text) :
    (v : Value) → ∀ p ∈ piecesAt layout depth lead v, p.Within (depth + v.depth)
  | .null | .bool _ | .int _ | .double _ | .str _ => by
    intro p hp
    simp only [piecesAt, List.mem_singleton] at hp
    subst hp
    exact ⟨Nat.le_add_right _ _, rfl⟩
  | .list [] | .obj [] => by
    intro p hp
    simp only [piecesAt, List.mem_cons, List.not_mem_nil, or_false] at hp
    rcases hp with rfl | rfl
    · exact ⟨Nat.le_add_right _ _, rfl⟩
    · exact ⟨by simp [Value.depth], rfl⟩
  | .list (x :: xs) => by
    intro p hp
    simp only [piecesAt, List.cons_append, List.mem_cons, List.mem_append] at hp
    simp only [Value.depth, Value.depthOfElements]
    rcases hp with rfl | (hp | hp) | hp
    · exact ⟨Nat.le_add_right _ _, rfl⟩
    · exact (within_of_mem_piecesAt layout (depth + 1) _ x p hp).mono (by omega)
    · exact (within_of_mem_elementPieces layout (depth + 1) xs p hp).mono (by omega)
    · exact within_of_mem_piecesOf hp (by omega)
  | .obj ((k, v) :: ms) => by
    intro p hp
    simp only [piecesAt, List.cons_append, List.mem_cons, List.mem_append] at hp
    simp only [Value.depth, Value.depthOfMembers]
    rcases hp with rfl | ((hp | hp) | hp) | hp
    · exact ⟨Nat.le_add_right _ _, rfl⟩
    · exact within_of_mem_piecesOf hp (by omega)
    · exact (within_of_mem_piecesAt layout (depth + 1) _ v p hp).mono (by omega)
    · exact (within_of_mem_memberPieces layout (depth + 1) ms p hp).mono (by omega)
    · exact within_of_mem_piecesOf hp (by omega)

theorem within_of_mem_elementPieces (layout : Layout) (depth : Nat) :
    (xs : List Value) → ∀ p ∈ elementPieces layout depth xs,
      p.Within (depth + Value.depthOfElements xs)
  | [] => nofun
  | x :: xs => by
    intro p hp
    simp only [elementPieces, List.mem_append] at hp
    rw [Value.depthOfElements]
    rcases hp with hp | hp
    · exact (within_of_mem_piecesAt layout depth _ x p hp).mono (by omega)
    · exact (within_of_mem_elementPieces layout depth xs p hp).mono (by omega)

theorem within_of_mem_memberPieces (layout : Layout) (depth : Nat) :
    (ms : List (Text × Value)) → ∀ p ∈ memberPieces layout depth ms,
      p.Within (depth + Value.depthOfMembers ms)
  | [] => nofun
  | (k, v) :: ms => by
    intro p hp
    simp only [memberPieces, List.mem_append] at hp
    rw [Value.depthOfMembers]
    rcases hp with (hp | hp) | hp
    · exact within_of_mem_piecesOf hp (Nat.le_add_right _ _)
    · exact (within_of_mem_piecesAt layout depth _ v p hp).mono (by omega)
    · exact (within_of_mem_memberPieces layout depth ms p hp).mono (by omega)

end

mutual

/-- The innermost place has a piece. -/
theorem exists_mem_piecesAt (layout : Layout) (depth : Nat) (lead : Text) :
    (v : Value) → ∃ p ∈ piecesAt layout depth lead v, p.depth = depth + v.depth
  | .null | .bool _ | .int _ | .double _ | .str _ => by
    simp [piecesAt, Value.depth]
  | .list [] | .obj [] => by
    simp [piecesAt, Value.depth, Value.depthOfElements, Value.depthOfMembers]
  | .list (x :: xs) => by
    simp only [piecesAt, Value.depth, Value.depthOfElements, List.cons_append, List.mem_cons,
      List.mem_append]
    rcases Nat.le_total (Value.depthOfElements xs) x.depth with hle | hle
    · obtain ⟨p, hp, hdepth⟩ := exists_mem_piecesAt layout (depth + 1)
        (.char '[' :: layout.margin (depth + 1)) x
      exact ⟨p, .inr (.inl (.inl hp)), by omega⟩
    · rcases exists_mem_elementPieces layout (depth + 1) xs with hnone | ⟨p, hp, hdepth⟩
      · obtain ⟨p, hp, hdepth⟩ := exists_mem_piecesAt layout (depth + 1)
          (.char '[' :: layout.margin (depth + 1)) x
        exact ⟨p, .inr (.inl (.inl hp)), by omega⟩
      · exact ⟨p, .inr (.inl (.inr hp)), by omega⟩
  | .obj ((k, v) :: ms) => by
    simp only [piecesAt, Value.depth, Value.depthOfMembers, List.cons_append, List.mem_cons,
      List.mem_append]
    rcases exists_mem_memberPieces layout (depth + 1) ms with hnone | ⟨p, hp, hdepth⟩
    · obtain ⟨p, hp, hdepth⟩ := exists_mem_piecesAt layout (depth + 1) [] v
      exact ⟨p, .inr (.inl (.inl (.inr hp))), by omega⟩
    · rcases Nat.le_total (Value.depthOfMembers ms) v.depth with hle | hle
      · obtain ⟨p, hp, hdepth⟩ := exists_mem_piecesAt layout (depth + 1) [] v
        exact ⟨p, .inr (.inl (.inl (.inr hp))), by omega⟩
      · exact ⟨p, .inr (.inl (.inr hp)), by omega⟩

theorem exists_mem_elementPieces (layout : Layout) (depth : Nat) : (xs : List Value) →
    Value.depthOfElements xs = 0 ∨
      ∃ p ∈ elementPieces layout depth xs, p.depth = depth + Value.depthOfElements xs
  | [] => .inl rfl
  | x :: xs => by
    simp only [elementPieces, Value.depthOfElements, List.mem_append]
    obtain ⟨p, hp, hdepth⟩ := exists_mem_piecesAt layout depth (layout.separator depth) x
    rcases exists_mem_elementPieces layout depth xs with hnone | ⟨q, hq, hdepth'⟩
    · exact .inr ⟨p, .inl hp, by omega⟩
    · rcases Nat.le_total (Value.depthOfElements xs) x.depth with hle | hle
      · exact .inr ⟨p, .inl hp, by omega⟩
      · exact .inr ⟨q, .inr hq, by omega⟩

theorem exists_mem_memberPieces (layout : Layout) (depth : Nat) : (ms : List (Text × Value)) →
    Value.depthOfMembers ms = 0 ∨
      ∃ p ∈ memberPieces layout depth ms, p.depth = depth + Value.depthOfMembers ms
  | [] => .inl rfl
  | (k, v) :: ms => by
    simp only [memberPieces, Value.depthOfMembers, List.mem_append]
    obtain ⟨p, hp, hdepth⟩ := exists_mem_piecesAt layout depth [] v
    rcases exists_mem_memberPieces layout depth ms with hnone | ⟨q, hq, hdepth'⟩
    · exact .inr ⟨p, .inl (.inr hp), by omega⟩
    · rcases Nat.le_total (Value.depthOfMembers ms) v.depth with hle | hle
      · exact .inr ⟨p, .inl (.inr hp), by omega⟩
      · exact .inr ⟨q, .inr hq, by omega⟩

end

/-! ### Digits -/

theorem digits_eq_of_mem_piecesOf {depth : Nat} {texts : List Text} {p : Piece}
    (h : p ∈ piecesOf depth texts) : p.digits = 0 := by
  obtain ⟨text, -, rfl⟩ := List.mem_map.mp h
  rfl

theorem digits_le_of_mem_elementPieces {layout : Layout} {depth : Nat} {xs : List Value}
    (h : ∀ x ∈ xs, ∀ lead, ∀ p ∈ piecesAt layout depth lead x, p.digits ≤ Numeral.maxDigits) :
    ∀ p ∈ elementPieces layout depth xs, p.digits ≤ Numeral.maxDigits := by
  induction xs with
  | nil => nofun
  | cons x xs ih =>
    intro p hp
    rw [elementPieces, List.mem_append] at hp
    rcases hp with hp | hp
    · exact h x List.mem_cons_self _ p hp
    · exact ih (fun y hy => h y (List.mem_cons_of_mem _ hy)) p hp

theorem digits_le_of_mem_memberPieces {layout : Layout} {depth : Nat} {ms : List (Text × Value)}
    (h : ∀ m ∈ ms, ∀ p ∈ piecesAt layout depth [] m.2, p.digits ≤ Numeral.maxDigits) :
    ∀ p ∈ memberPieces layout depth ms, p.digits ≤ Numeral.maxDigits := by
  induction ms with
  | nil => nofun
  | cons m ms ih =>
    intro p hp
    rw [memberPieces, List.mem_append, List.mem_append] at hp
    rcases hp with (hp | hp) | hp
    · rw [digits_eq_of_mem_piecesOf hp]
      exact Nat.zero_le _
    · exact h m List.mem_cons_self p hp
    · exact ih (fun n hn => h n (List.mem_cons_of_mem _ hn)) p hp

/-- No integer of a storable value is too long to be written. -/
theorem digits_le_of_mem_piecesAt {v : Value} (hv : v.Storable) (layout : Layout) (depth : Nat)
    (lead : Text) : ∀ p ∈ piecesAt layout depth lead v, p.digits ≤ Numeral.maxDigits := by
  induction hv generalizing depth lead with
  | null | bool | double | str =>
    intro p hp
    rw [piecesAt, List.mem_singleton] at hp
    rw [hp]
    exact Nat.zero_le _
  | int h =>
    intro p hp
    rw [piecesAt, List.mem_singleton] at hp
    rw [hp]
    exact h
  | @list xs _ ih =>
    cases xs with
    | nil =>
      intro p hp
      simp only [piecesAt, List.mem_cons, List.not_mem_nil, or_false] at hp
      rcases hp with rfl | rfl <;> exact Nat.zero_le _
    | cons x xs =>
      intro p hp
      simp only [piecesAt, List.cons_append, List.mem_cons, List.mem_append] at hp
      rcases hp with rfl | (hp | hp) | hp
      · exact Nat.zero_le _
      · exact ih x List.mem_cons_self _ _ p hp
      · exact digits_le_of_mem_elementPieces
          (fun y hy lead => ih y (List.mem_cons_of_mem _ hy) _ lead) p hp
      · rw [digits_eq_of_mem_piecesOf hp]
        exact Nat.zero_le _
  | @obj ms _ _ _ ih =>
    cases ms with
    | nil =>
      intro p hp
      simp only [piecesAt, List.mem_cons, List.not_mem_nil, or_false] at hp
      rcases hp with rfl | rfl <;> exact Nat.zero_le _
    | cons m ms =>
      intro p hp
      simp only [piecesAt, List.cons_append, List.mem_cons, List.mem_append] at hp
      rcases hp with rfl | ((hp | hp) | hp) | hp
      · exact Nat.zero_le _
      · rw [digits_eq_of_mem_piecesOf hp]
        exact Nat.zero_le _
      · exact ih m List.mem_cons_self _ _ p hp
      · exact digits_le_of_mem_memberPieces
          (fun n hn => ih n (List.mem_cons_of_mem _ hn) _ []) p hp
      · rw [digits_eq_of_mem_piecesOf hp]
        exact Nat.zero_le _

/-- Nothing is in the way of printing a piece of a storable value that is not too deep. -/
theorem flaw?_eq_none {v : Value} (hv : v.Storable) (hdepth : v.depth ≤ nestingLimit)
    {layout : Layout} {p : Piece} (hp : p ∈ pieces layout v) : p.flaw? = none := by
  have hwithin := within_of_mem_piecesAt layout 0 [] v p hp
  have hle : p.depth ≤ nestingLimit :=
    Nat.le_trans hwithin.depth_le (by rwa [Nat.zero_add])
  rw [Piece.flaw?, if_neg (Nat.not_lt.mpr hle), hwithin.plain,
    if_neg Bool.false_ne_true,
      if_neg (Nat.not_lt.mpr (digits_le_of_mem_piecesAt hv layout 0 [] p hp))]

end Json

/-! ### Files -/

section

variable {memory : Nat} {p : Json.Piece} {ps : List Json.Piece}

theorem writtenPieces_eq_join (h : ∀ p ∈ ps, pieceError? memory p = none) :
    writtenPieces memory ps = (Json.joinPieces ps, none) := by
  induction ps with
  | nil => rfl
  | cons p ps ih =>
    rw [writtenPieces, h p List.mem_cons_self, ih fun q hq => h q (List.mem_cons_of_mem _ hq),
      Json.joinPieces_cons]

/-- If something is in the way, what gets into the file is how the pieces before the last begin. -/
theorem writtenPieces_isPrefix {last : Json.Piece} {e : PieceError}
    (h : (writtenPieces memory (ps ++ [last])).2 = some e) :
    (writtenPieces memory (ps ++ [last])).1 <+: Json.joinPieces ps := by
  induction ps with
  | nil =>
    rw [List.nil_append, writtenPieces] at h ⊢
    cases hlast : pieceError? memory last with
    | some e => exact List.nil_prefix
    | none =>
      rw [hlast] at h
      cases h
  | cons p ps ih =>
    rw [List.cons_append] at h ⊢
    unfold writtenPieces at h ⊢
    split at h
    · exact List.nil_prefix
    · rw [Json.joinPieces_cons]
      exact (List.prefix_append_right_inj _).mpr (ih h)

/-- All is written exactly if nothing is in the way. -/
theorem writtenPieces_eq_none_iff :
    (writtenPieces memory ps).2 = none ↔ ∀ p ∈ ps, pieceError? memory p = none := by
  refine ⟨fun h => ?_, fun h => by rw [writtenPieces_eq_join h]⟩
  induction ps with
  | nil => nofun
  | cons p ps ih =>
    unfold writtenPieces at h
    split at h
    · cases h
    · next hp => exact List.forall_mem_cons.mpr ⟨hp, ih h⟩

theorem pieceError?_eq_none_iff : pieceError? memory p = none ↔
    p.flaw? = none ∧ p.text.length ≤ memory ∧ ∀ s ∈ p.text, s.isHalf = false := by
  unfold pieceError?
  cases p.flaw? with
  | some flaw => simp
  | none =>
    by_cases hlength : memory < p.text.length
    · simp [hlength]
    · dsimp only
      rw [if_neg hlength, Option.map_eq_none_iff]
      exact ⟨fun h => ⟨rfl, Nat.le_of_not_lt hlength, refused_eq_false_of_mem (fun _ => id) h⟩,
        fun h => unencodable?_eq_none h.2.2⟩

/-- What gets into the file can be encoded. -/
theorem isHalf_eq_false_of_mem_writtenPieces :
    ∀ s ∈ (writtenPieces memory ps).1, s.isHalf = false := by
  induction ps with
  | nil => nofun
  | cons p ps ih =>
    unfold writtenPieces
    split
    · nofun
    · next hp =>
      intro s hs
      rcases List.mem_append.mp hs with hs | hs
      · exact (pieceError?_eq_none_iff.mp hp).2.2 s hs
      · exact ih s hs

end

theorem exists_layout_of_layOut {memory : Nat} {path : PathName} {indent : Option Int}
    {d : Json.Drawing} (h : (layOut memory path indent d).2 = none) :
    ∃ layout, Json.Layout.ofIndent memory indent = .ok layout ∧
      (writtenPieces memory (filePieces layout d)).2 = none := by
  unfold layOut at h
  split at h
  · cases h
  · next layout hlayout => exact ⟨layout, hlayout, Option.map_eq_none_iff.mp h⟩

theorem isHalf_eq_false_of_isKept {t : Text} (h : t.all Json.isKept = true) :
    ∀ s ∈ t, s.isHalf = false := by
  intro s hs
  cases s with
  | char => rfl
  | half => exact absurd (List.all_eq_true.mp h _ hs) Bool.false_ne_true

/-- There is memory for every piece of a document. -/
def RoomFor (memory : Nat) (layout : Json.Layout) (v : Value) : Prop :=
  ∀ p ∈ filePieces layout (Json.drawing v), p.text.length ≤ memory

instance (memory : Nat) (layout : Json.Layout) (v : Value) : Decidable (RoomFor memory layout v) :=
  inferInstanceAs (Decidable (∀ p ∈ filePieces layout (Json.drawing v), p.text.length ≤ memory))

/-- Everything of a document gets into its file, if there is memory for its pieces. -/
theorem writtenPieces_filePieces_iff {v : Value} (hv : v.Storable)
    (hdepth : v.depth ≤ Json.nestingLimit) (memory : Nat) (layout : Json.Layout) :
    (writtenPieces memory (filePieces layout (Json.drawing v))).2 = none ↔
      RoomFor memory layout v := by
  have hjoin : Json.joinPieces (filePieces layout (Json.drawing v)) =
      Json.print layout v ++ [.char '\n'] := by
    simp [filePieces, Json.drawing, Json.joinPieces_pieces]
  have hkept : (Json.joinPieces (filePieces layout (Json.drawing v))).all Json.isKept = true := by
    rw [hjoin, List.all_append, Json.print, Json.all_isKept_printAt hv]
    rfl
  rw [Json.joinPieces, List.all_flatMap, List.all_eq_true] at hkept
  rw [writtenPieces_eq_none_iff]
  refine forall₂_congr fun p hp => ?_
  have hflaw : p.flaw? = none := by
    rcases List.mem_append.mp hp with hp | hp
    · exact Json.flaw?_eq_none hv hdepth hp
    · obtain rfl := List.mem_singleton.mp hp
      rfl
  rw [pieceError?_eq_none_iff]
  exact ⟨fun h => h.2.1, fun h => ⟨hflaw, h, isHalf_eq_false_of_isKept (hkept p hp)⟩⟩

theorem writtenPieces_filePieces {v : Value} (hv : v.Storable)
    (hdepth : v.depth ≤ Json.nestingLimit) {memory : Nat} {layout : Json.Layout}
    (hroom : RoomFor memory layout v) :
    writtenPieces memory (filePieces layout (Json.drawing v)) =
      (Json.print layout v ++ [.char '\n'], none) := by
  have hnone := (writtenPieces_filePieces_iff hv hdepth memory layout).mpr hroom
  rw [writtenPieces_eq_join (writtenPieces_eq_none_iff.mp hnone)]
  simp [filePieces, Json.drawing, Json.joinPieces_pieces]

end Reshape

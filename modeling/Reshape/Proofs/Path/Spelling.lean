import Reshape.Proofs.Number.Numeral
import Reshape.Proofs.Path.Fields

/-!
# How paths are spelled

The text of a path that was read is the text it was read from, without the zeros that its indexes
do not need (`Segment.text_of_ofText`), and is read as the same path again. A path that was put
together from segments is read back from its text exactly if each of its segments is `Spellable`,
and there is one.
-/

namespace Reshape

namespace Segment

variable {piece key : Text} {digits : List Char} {s : Segment}

/-- The piece has an index with a zero in front of another digit. -/
def Padded (piece : Text) : Prop :=
  ∃ key c cs, Bracketed piece key ('0' :: c :: cs)

/-- The piece without the zeros that its index does not need. -/
def unpadded (piece : Text) : Text :=
  let key := piece.takeWhile (· != .char '[')
  match bracketed? (piece.dropWhile (· != .char '[')) with
  | some digits =>
    if key = [] then piece
    else key ++ (.char '[' :: Text.ofChars (Numeral.unpadded digits) ++ [.char ']'])
  | none => piece

/-- A segment that a piece of a text can be read as. -/
structure Spellable (s : Segment) : Prop where
  dot_not_mem : .char '.' ∉ s.key
  /-- A key in front of brackets is not empty and has none of its own. -/
  bracketed : s.access ≠ .plain → s.key ≠ [] ∧ .char '[' ∉ s.key
  /-- A plain key is not read as a key with brackets. -/
  plain : s.access = .plain → ∀ key digits, ¬ Bracketed s.key key digits

/-- An index of the segment has no more digits than are read. -/
def Readable (s : Segment) : Prop :=
  ∀ n, s.access = .index n → (Nat.toDigits 10 n).length ≤ Numeral.maxDigits

/-! ### Zeros in front -/

theorem unpadded_bracketed (h : Bracketed piece key digits) :
    unpadded piece =
      key ++ (.char '[' :: Text.ofChars (Numeral.unpadded digits) ++ [.char ']']) := by
  obtain ⟨ht, hk, hb⟩ := bracketed_iff.mp h
  simp only [unpadded, ht, hb, if_neg hk]

theorem unpadded_plain (h : ∀ key digits, ¬ Bracketed piece key digits) :
    unpadded piece = piece := by
  simp only [unpadded]
  split
  · next digits hb =>
    have hk : piece.takeWhile (· != .char '[') = [] :=
      Decidable.byContradiction fun hk => h _ _ (bracketed_iff.mpr ⟨rfl, hk, hb⟩)
    rw [if_pos hk]
  · rfl

theorem unpadded_eq_self_iff : unpadded piece = piece ↔ ¬ Padded piece := by
  by_cases hb : ∃ key digits, Bracketed piece key digits
  · obtain ⟨key, digits, hb⟩ := hb
    have hpadded : Padded piece ↔ ∃ c cs, digits = '0' :: c :: cs := by
      constructor
      · rintro ⟨key', c, cs, hb'⟩
        exact ⟨c, cs, (hb.unique hb').2⟩
      · rintro ⟨c, cs, rfl⟩
        exact ⟨key, c, cs, hb⟩
    have hself : unpadded piece = piece ↔ Numeral.unpadded digits = digits := by
      constructor
      · intro h
        have hsame := (unpadded_bracketed hb).symm.trans (h.trans hb.eq)
        have htext : Text.ofChars (Numeral.unpadded digits) = Text.ofChars digits := by
          simpa using hsame
        simpa using congrArg Text.chars htext
      · intro h
        rw [unpadded_bracketed hb, h, ← hb.eq]
    rw [hself, hpadded, Numeral.unpadded_eq_self_iff]
    simp
  · have hno : ¬ Padded piece := fun ⟨key, _, _, h⟩ => hb ⟨key, _, h⟩
    simp [hno, unpadded_plain fun key digits h => hb ⟨key, digits, h⟩]

/-- A segment that was read is written as the piece was, zeros in front of an index aside. -/
theorem text_of_ofText (h : ofText piece = .ok s) : s.text = unpadded piece := by
  rcases ofText_eq_ok_iff.mp h with ⟨key, hb, rfl⟩ | ⟨key, digits, hb, hd, -, rfl⟩ | ⟨hno, rfl⟩
  · rw [unpadded_bracketed hb]
    rfl
  · rw [unpadded_bracketed hb, text, Access.suffix, Numeral.toDigits_ofDigitChars hd hb.isDigit]
  · rw [unpadded_plain hno]
    exact List.append_nil _

/-! ### Segments -/

theorem ofText_text (hs : s.Spellable) (hn : s.Readable) : ofText s.text = .ok s := by
  obtain ⟨key, access⟩ := s
  rw [ofText_eq_ok_iff]
  cases access with
  | plain =>
    refine .inr (.inr ?_)
    rw [text, Access.suffix, List.append_nil]
    exact ⟨hs.plain rfl, rfl⟩
  | wildcard =>
    obtain ⟨hk, hb⟩ := hs.bracketed nofun
    exact .inl ⟨key, ⟨rfl, hk, hb, rfl⟩, rfl⟩
  | index n =>
    obtain ⟨hk, hb⟩ := hs.bracketed nofun
    refine .inr (.inl ⟨key, Nat.toDigits 10 n, ⟨rfl, hk, hb, ?_⟩, ?_, hn n rfl, ?_⟩)
    · exact Numeral.all_isDigit_toDigits n
    · exact Nat.toDigits_ne_nil
    · rw [Nat.ofDigitChars_ten_toDigits]

theorem spellable_of_ofText (hdot : .char '.' ∉ piece) (h : ofText piece = .ok s) :
    s.Spellable := by
  have hkey : ∀ {key : Text} {digits : List Char}, Bracketed piece key digits → .char '.' ∉ key :=
    fun hb hm => hdot (hb.eq ▸ List.mem_append_left _ hm)
  rcases ofText_eq_ok_iff.mp h with ⟨key, hb, rfl⟩ | ⟨key, digits, hb, -, -, rfl⟩ | ⟨hno, rfl⟩
  · exact ⟨hkey hb, fun _ => ⟨hb.key_ne_nil, hb.not_mem_key⟩, nofun⟩
  · exact ⟨hkey hb, fun _ => ⟨hb.key_ne_nil, hb.not_mem_key⟩, nofun⟩
  · exact ⟨hdot, fun ha => (ha rfl).elim, fun _ => hno⟩

theorem readable_of_ofText (h : ofText piece = .ok s) : s.Readable := by
  rcases ofText_eq_ok_iff.mp h with ⟨key, -, rfl⟩ | ⟨key, digits, hb, hd, hlen, rfl⟩ | ⟨-, rfl⟩
  · nofun
  · rintro n ⟨⟩
    rw [Numeral.toDigits_ofDigitChars hd hb.isDigit]
    exact (Numeral.length_unpadded_le digits).trans hlen
  · nofun

theorem dot_not_mem_text (h : .char '.' ∉ s.key) : .char '.' ∉ s.text := by
  have hsuffix : .char '.' ∉ s.access.suffix := by
    cases s.access with
    | plain => simp [Access.suffix]
    | wildcard => simp [Access.suffix]
    | index n =>
      have hdigits : '.' ∉ Nat.toDigits 10 n := fun hm => by
        simpa using Nat.isDigit_of_mem_toDigits (by decide) (by decide) hm
      simpa [Access.suffix, Text.ofChars] using hdigits
  rw [text, List.mem_append, not_or]
  exact ⟨h, hsuffix⟩

end Segment

namespace Path

variable {p : Path} {text piece : Text}

theorem dot_not_mem_of_mem_pieces (h : piece ∈ pieces text) : .char '.' ∉ piece := by
  induction text generalizing piece with
  | nil =>
    rw [List.mem_singleton.mp h]
    exact List.not_mem_nil
  | cons c rest ih =>
    rw [pieces, List.splitOn_cons_eq_if_modifyHead] at h
    split at h
    · rcases List.mem_cons.mp h with rfl | hrest
      · exact List.not_mem_nil
      · exact ih hrest
    · next hc =>
      obtain ⟨first, others, hsplit⟩ : ∃ first others, pieces rest = first :: others :=
        List.exists_cons_of_ne_nil (List.splitOn_ne_nil _ _)
      rw [← pieces, hsplit, List.modifyHead_cons] at h
      rcases List.mem_cons.mp h with rfl | hother
      · have hfirst : .char '.' ∉ first := ih (hsplit ▸ List.mem_cons_self)
        simp only [List.mem_cons, not_or]
        exact ⟨fun e => hc (by simp [← e]), hfirst⟩
      · exact ih (hsplit ▸ List.mem_cons_of_mem _ hother)

theorem pieces_text (hp : p ≠ []) (hs : ∀ s ∈ p, .char '.' ∉ s.key) :
    pieces p.text = p.map Segment.text := by
  refine List.splitOn_intercalate _ ?_ (by simpa using hp)
  intro piece hpiece
  obtain ⟨s, hs', rfl⟩ := List.mem_map.mp hpiece
  exact Segment.dot_not_mem_text (hs s hs')

theorem map_text_of_mapM {texts : List Text} (h : texts.mapM Segment.ofText = .ok p) :
    p.map Segment.text = texts.map Segment.unpadded := by
  rw [Traverse.mapM_eq_ok_iff] at h
  induction texts generalizing p with
  | nil =>
    rw [List.map_nil, eq_comm, List.map_eq_nil_iff] at h
    rw [h, List.map_nil, List.map_nil]
  | cons piece texts ih =>
    cases p with
    | nil => cases h
    | cons s p =>
      rw [List.map_cons, List.map_cons, List.cons.injEq] at h
      rw [List.map_cons, List.map_cons, Segment.text_of_ofText h.1, ih h.2]

theorem mem_of_ofText {s : Segment} (h : ofText text = .ok p) (hs : s ∈ p) :
    ∃ piece ∈ pieces text, Segment.ofText piece = .ok s :=
  (Traverse.mem_iff_of_mapM_eq_ok h).mp hs

/-- A path is read back from its text exactly if its segments are such as can be read at all. -/
theorem ofText_text_iff (hn : ∀ s ∈ p, s.Readable) :
    ofText p.text = .ok p ↔ p ≠ [] ∧ ∀ s ∈ p, s.Spellable := by
  constructor
  · intro h
    refine ⟨ne_nil_of_ofText h, fun s hs => ?_⟩
    obtain ⟨piece, hpiece, hread⟩ := mem_of_ofText h hs
    exact Segment.spellable_of_ofText (dot_not_mem_of_mem_pieces hpiece) hread
  · rintro ⟨hp, hs⟩
    rw [ofText, pieces_text hp fun s h => (hs s h).dot_not_mem, Traverse.mapM_eq_ok_iff,
      List.map_map]
    exact List.map_congr_left fun s h => Segment.ofText_text (hs s h) (hn s h)

/-- A path that was read is read back from its text. -/
theorem ofText_text_of_ofText (h : ofText text = .ok p) : ofText p.text = .ok p := by
  refine (ofText_text_iff fun s hs => ?_).mpr ⟨ne_nil_of_ofText h, fun s hs => ?_⟩
  · obtain ⟨piece, -, hread⟩ := mem_of_ofText h hs
    exact Segment.readable_of_ofText hread
  · obtain ⟨piece, hpiece, hread⟩ := mem_of_ofText h hs
    exact Segment.spellable_of_ofText (dot_not_mem_of_mem_pieces hpiece) hread

theorem text_of_ofText (h : ofText text = .ok p) :
    p.text = [.char '.'].intercalate ((pieces text).map Segment.unpadded) := by
  rw [Path.text, map_text_of_mapM h]

theorem text_eq_self_iff (h : ofText text = .ok p) :
    p.text = text ↔ ∀ piece ∈ pieces text, ¬ Segment.Padded piece := by
  have hp : p ≠ [] := ne_nil_of_ofText h
  have hdots : ∀ s ∈ p, .char '.' ∉ s.key := fun s hs => by
    obtain ⟨piece, hpiece, hread⟩ := mem_of_ofText h hs
    exact (Segment.spellable_of_ofText (dot_not_mem_of_mem_pieces hpiece) hread).dot_not_mem
  have hpieces : p.text = text ↔ (pieces text).map Segment.unpadded = pieces text := by
    rw [← map_text_of_mapM h, ← pieces_text hp hdots]
    exact ⟨congrArg pieces, fun e => by simpa [pieces] using congrArg [.char '.'].intercalate e⟩
  rw [hpieces]
  constructor
  · intro e piece hpiece
    refine Segment.unpadded_eq_self_iff.mp ?_
    exact List.map_inj_left.mp (e.trans (List.map_id _).symm) piece hpiece
  · intro hall
    have hid : (pieces text).map Segment.unpadded = (pieces text).map id :=
      List.map_congr_left fun piece hpiece => Segment.unpadded_eq_self_iff.mpr (hall piece hpiece)
    rw [hid, List.map_id]

/-- Texts and paths determine each other, as far as they can. A text is spelled back from the path
that is read from it, but for zeros in front of an index, and gives the same path again. A path is
read back from its text if it has segments, and such as a piece of a text can be read as. -/
theorem text_roundTrip :
    (∀ text, (∀ piece ∈ pieces text, ¬ Segment.Overlong piece) →
      ∃ p, ofText text = .ok p ∧ ofText p.text = .ok p ∧
        p.text = [.char '.'].intercalate ((pieces text).map Segment.unpadded) ∧
        (p.text = text ↔ ∀ piece ∈ pieces text, ¬ Segment.Padded piece)) ∧
    ∀ p : Path, (∀ s ∈ p, s.Readable) →
      (ofText p.text = .ok p ↔ p ≠ [] ∧ ∀ s ∈ p, s.Spellable) := by
  constructor
  · intro text hshort
    obtain ⟨p, hp⟩ : ∃ p, ofText text = .ok p := by
      rw [Traverse.exists_ok_iff, exists_ofText_error_iff]
      rintro ⟨piece, hpiece, ho⟩
      exact hshort piece hpiece ho
    exact ⟨p, hp, ofText_text_of_ofText hp, text_of_ofText hp, text_eq_self_iff hp⟩
  · intro p hp
    exact ofText_text_iff hp

/-- Brackets that are part of a key, an empty key, and an index with zeros in front. -/
theorem text_roundTrip_brackets :
    let text : Text := "a][007].b[]..[0].c[1"
    let p : Path := [⟨"a]", .index 10⟩, ⟨"", .plain⟩, ⟨"[]", .plain⟩, ⟨"b[", .plain⟩]
    (∀ piece ∈ pieces text, ¬ Segment.Overlong piece) ∧
    (∃ q, ofText text = .ok q ∧ ofText q.text = .ok q ∧ q.text = "a][7].b[]..[0].c[1") ∧
    (∀ s ∈ p, s.Readable) ∧ p.text = "a][10]..[].b[" ∧ ∀ s ∈ p, s.Spellable := by
  intro text p
  have hshort : ∀ piece ∈ pieces text, ¬ Segment.Overlong piece := by decide
  have hreadable : ∀ s ∈ p, s.Readable := by
    have hten : (Nat.toDigits 10 10).length ≤ Numeral.maxDigits := by decide
    simpa [p, Segment.Readable] using hten
  obtain ⟨q, hq, hback, htext, -⟩ := text_roundTrip.1 text hshort
  have hread : ofText p.text = .ok p := by decide
  exact ⟨hshort, ⟨q, hq, hback, htext.trans (by decide)⟩, hreadable, by decide,
    ((text_roundTrip.2 p hreadable).mp hread).2⟩

end Path

end Reshape

import Reshape.Proofs.Path.Forms
import Reshape.Proofs.Path.Mirror

/-!
# Pieces that both sides split alike

A slot of a target has a segment that says the same to a reader (`Slot.segment`). The reader takes a
piece for the segment of its slot exactly if the piece is mirrored
(`Segment.ofText_eq_segment_iff_mirrored`), and that is seen in its brackets: the two sides part at
an index, which the writer does not know, and at a final `[]` that the reader takes for a part of
the key (`Segment.ofText_eq_segment_iff`).
-/

namespace Reshape

/-- The segment that leads a reader to what stands in the slot. -/
def Slot.segment : Slot → Segment
  | .field key => { key }
  | .array key => { key, access := .wildcard }

namespace Segment

variable {piece : Text}

theorem segment_slot {s : Segment} (h : s.Unindexed) : s.slot.segment = s := by
  obtain ⟨key, access⟩ := s
  rcases h with rfl | rfl <;> rfl

theorem ofText_eq_segment_iff_mirrored :
    ofText piece = .ok (Slot.ofText piece).segment ↔ Mirrored piece := by
  constructor
  · intro h
    refine ⟨_, h, ?_⟩
    by_cases hm : Marked piece
    · obtain ⟨stem, rfl⟩ := hm
      exact .inl (by rw [Slot.ofText_array, Slot.segment])
    · exact .inr ⟨by rw [Slot.ofText_field hm, Slot.segment], hm⟩
  · intro h
    obtain ⟨s, hs, hslot, hu⟩ := h.slot_ofText
    rw [hs, hslot, segment_slot hu]

theorem mirrored_concat_mark_iff (stem : Text) :
    Mirrored (stem ++ [.char '[', .char ']']) ↔ stem ≠ [] ∧ .char '[' ∉ stem := by
  constructor
  · rintro ⟨⟨key, access⟩, hs, rfl | ⟨-, hm⟩⟩
    · obtain rfl : stem = key := List.append_cancel_right (eq_of_ofText_wildcard hs rfl)
      exact (bracketed_nil_iff.mp (ofText_eq_wildcard_iff.mp hs)).2
    · exact absurd ⟨stem, rfl⟩ hm
  · intro hstem
    have hb := bracketed_nil_iff.mpr ⟨rfl, hstem⟩
    exact ⟨_, ofText_eq_wildcard_iff.mpr hb, .inl rfl⟩

theorem mirrored_iff_not_indexed (hm : ¬ Marked piece) : Mirrored piece ↔ ¬ Indexed piece := by
  constructor
  · rintro ⟨⟨key, access⟩, hs, rfl | ⟨rfl, -⟩⟩ ⟨other, digits, hb, hd⟩
    · exact hm ⟨key, (eq_of_ofText_wildcard hs rfl).symm⟩
    · exact (ofText_eq_plain_iff.mp hs).2 other digits hb
  · exact fun hi => ⟨_, ofText_eq_plain hm hi, .inr ⟨rfl, hm⟩⟩

/-- Reader and writer part at a key with digits in brackets, and at a final `[]` behind nothing or
behind another bracket, and nowhere else. -/
theorem ofText_eq_segment_iff (piece : Text) :
    ofText piece = .ok (Slot.ofText piece).segment ↔
      ¬ Indexed piece ∧
      ¬ ∃ stem, piece = stem ++ [.char '[', .char ']'] ∧ (stem = [] ∨ .char '[' ∈ stem) := by
  rw [ofText_eq_segment_iff_mirrored]
  by_cases hm : Marked piece
  · have hi : ¬ Indexed piece := fun h => h.not_marked hm
    obtain ⟨stem, rfl⟩ := hm
    rw [mirrored_concat_mark_iff, ← not_or, and_iff_right hi, not_iff_not]
    constructor
    · exact fun hstem => ⟨stem, rfl, hstem⟩
    · rintro ⟨other, heq, hother⟩
      rwa [List.append_cancel_right heq]
  · rw [mirrored_iff_not_indexed hm, and_iff_left]
    rintro ⟨stem, heq, -⟩
    exact hm ⟨stem, heq.symm⟩

/-- The reader keeps two marks as a key, where the writer takes off the second. -/
example : ofText "a[][]" = .ok { key := "a[][]" } ∧ Slot.ofText "a[][]" = .array "a[]" := by decide

end Segment

end Reshape

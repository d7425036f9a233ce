import Reshape.Path.Read
import Reshape.Proofs.Path.Write
import Reshape.Proofs.Traverse

/-!
# Paths of fields

A path whose pieces are neither marked nor indexed is a path of keys alone, for reading and for
writing (`Path.ofText_fields`, `Target.ofText_fields`). Reading it gives what its pieces lead to
(`Path.readText_fields`).
-/

namespace Reshape

/-- Neither the reader nor the writer sees more than a key in the piece. -/
def Segment.IsField (piece : Text) : Prop :=
  ¬ Segment.Marked piece ∧ ¬ Segment.Indexed piece

instance (piece : Text) : Decidable (Segment.IsField piece) :=
  inferInstanceAs (Decidable (_ ∧ _))

theorem Target.ofText_fields {text : Text}
    (h : ∀ piece ∈ Path.pieces text, ¬ Segment.Marked piece) :
    Target.ofText text = (Path.pieces text).map .field :=
  List.map_congr_left fun piece hp => Slot.ofText_field (h piece hp)

namespace Path

/-- The path of keys alone. -/
def ofKeys (keys : List Text) : Path :=
  keys.map fun key => { key }

theorem exists_ofText_error_iff {text : Text} :
    (∃ e, ofText text = .error e) ↔ ∃ piece ∈ pieces text, Segment.Overlong piece := by
  simp only [ofText, Traverse.exists_mapM_error_iff, Segment.exists_ofText_error_iff]

theorem ne_nil_of_ofText {text : Text} {p : Path} (h : ofText text = .ok p) : p ≠ [] := by
  rintro rfl
  have hnil : (pieces text).map Segment.ofText = [] := Traverse.mapM_eq_ok_iff.mp h
  exact List.splitOn_ne_nil _ _ (List.map_eq_nil_iff.mp hnil)

theorem ofText_fields {text : Text} (h : ∀ piece ∈ pieces text, Segment.IsField piece) :
    ofText text = .ok (ofKeys (pieces text)) := by
  refine Traverse.mapM_eq_ok_iff.mpr ?_
  rw [ofKeys, List.map_map]
  exact List.map_congr_left fun piece hp => Segment.ofText_eq_plain (h piece hp).1 (h piece hp).2

/-- From an object, a reading goes on from what is under the key of the first segment. -/
theorem readFrom_obj (ms : Members) (s : Segment) (rest : Path) :
    readFrom (some (.obj ms)) (s :: rest) = match s.access with
      | .plain => readFrom (Keyed.get? ms s.key) rest
      | .index position => readFrom (pick position (Keyed.get? ms s.key)) rest
      | .wildcard => do
        return some (.list (← readAll (fanOut (Keyed.get? ms s.key)) rest)) := rfl

theorem readFrom_ofKeys {w : Value} : ∀ {keys : List Text} {v : Value}, v.along keys = some w →
    readFrom (some v) (ofKeys keys) = .ok (some w)
  | [], v, h => by
    cases h
    rfl
  | key :: rest, v, h => by
    cases v with
    | obj ms =>
      obtain ⟨u, hu, hw⟩ := Option.bind_eq_some_iff.mp h
      have ih := readFrom_ofKeys hw
      rw [← hu] at ih
      exact ih
    | _ => cases h

theorem readText_fields {root w : Value} {text : Text} (ht : text ≠ [])
    (hp : ∀ piece ∈ pieces text, Segment.IsField piece) (h : root.along (pieces text) = some w) :
    readText root text = .ok (some w) := by
  rw [readText, if_neg ht, ofText_fields hp]
  exact readFrom_ofKeys h

/-- A path is refused for its pieces, whatever it is read from. -/
theorem readText_overlong (root : Value) {text piece : Text} (hp : piece ∈ pieces text)
    (h : Segment.Overlong piece) : ∃ e, readText root text = .error e := by
  have ht : text ≠ [] := fun e => by
    subst e
    obtain ⟨key, digits, hb, -⟩ := h
    have he := hb.eq
    rw [List.mem_singleton.mp hp] at he
    simp at he
  obtain ⟨e, he⟩ := exists_ofText_error_iff.mpr ⟨piece, hp, h⟩
  rw [readText, if_neg ht, he]
  exact ⟨e, rfl⟩

end Path

end Reshape

import Reshape.Proofs.Path.Blocked

/-!
# Reading in two steps

Up to its first wildcard a path leads from one value to the next, so a reading along it can be
broken off anywhere and taken up again where it has come to (`readFrom_append`). There it has found
a value, `null` or nothing. The last two are different as answers, but nothing can be read from
either (`read_append`).
-/

namespace Reshape

namespace Path

variable {p q : Path}

/-- Before the first wildcard a reading can be broken off anywhere. -/
theorem readFrom_append (hp : p.hasWildcard = false) (current : Option Value) :
    readFrom current (p ++ q) = readFrom current p >>= fun found => readFrom found q := by
  induction p generalizing current with
  | nil => rfl
  | cons s p ih =>
    rw [hasWildcard_cons, Bool.or_eq_false_iff] at hp
    have hnothing : .ok none = readFrom none q := (readFrom_none q).symm
    cases current with
    | none =>
      rw [readFrom_none, readFrom_none]
      exact hnothing
    | some v =>
      by_cases hv : v = .null
      · rw [hv, readFrom_null (List.cons_ne_nil s p), List.cons_append,
          readFrom_null (List.cons_ne_nil s (p ++ q))]
        exact hnothing
      · rw [List.cons_append, readFrom_cons hv, readFrom_cons hv]
        cases v.under s.key with
        | error limit => rfl
        | ok found =>
          obtain ⟨key, access⟩ := s
          cases access with
          | plain => exact ih hp.2 found
          | index position => exact ih hp.2 (pick position found)
          | wildcard => cases hp.1

theorem exists_read_ok_iff {root : Value} :
    (∃ found, read root p = .ok found) ↔ ¬ Blocked root p := by
  rw [Traverse.exists_ok_iff, read, exists_readFrom_error_iff]
  simp

/-- What is found along the first part of a path is read along the second, unless there is nothing
or `null`; and only a key of too many digits can stop the two. -/
theorem read_append (root : Value) (hp : p.hasWildcard = false) (hq : q ≠ []) :
    read root [] = .ok (some root) ∧
      (read root (p ++ q) = do
        match ← read root p with
        | none => return none
        | some .null => return none
        | some v => read v q) ∧
      ((∃ found, read root (p ++ q) = .ok found) ↔ ¬ Blocked root (p ++ q)) := by
  refine ⟨rfl, ?_, exists_read_ok_iff⟩
  rw [read, readFrom_append hp, read]
  refine congrArg (readFrom (some root) p >>= ·) (funext fun found => ?_)
  split
  · exact readFrom_none q
  · exact readFrom_null hq
  · rfl

/-- A path of an index and a wildcard, read from what the index picks. -/
theorem read_append_index :
    let root := Value.obj [("a", .list [.null, .obj [("b", .list [.obj [("c", .int 1)], .null,
      .obj [], .int 2])]])]
    let p : Path := [⟨"a", .index 1⟩]
    let q : Path := [⟨"b", .wildcard⟩, ⟨"c", .plain⟩]
    p.hasWildcard = false ∧ q ≠ [] ∧
      read root (p ++ q) = .ok (some (.list [.int 1, .null, .null])) := by
  intro root p q
  have hp : p.hasWildcard = false := rfl
  have hq : q ≠ [] := List.cons_ne_nil _ _
  exact ⟨hp, hq, (read_append root hp hq).2.1.trans rfl⟩

end Path

end Reshape

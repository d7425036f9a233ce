import Reshape.Proofs.Keyed
import Reshape.Proofs.Traverse
import Reshape.Storage.FileTree

/-!
# What is written to a file tree

Putting something in a place where no directory is changes what is there and nothing else, and no
name leads elsewhere for it (`resolve_put`). So what has been written under a name is read under
it (`read_of_write`).
-/

namespace Reshape

namespace FileTree

variable {t t' : FileTree} {home place : Location} {p : PathName} {bytes : ByteArray}
  {guarded : List Location}

theorem get?_put (t : FileTree) (place : Location) (node : FileNode) (other : Location) :
    (t.put place node).get? other =
      if other = [] then some .directory
      else if other = place then some node else t.get? other := by
  unfold get? put
  split
  · rfl
  · rw [Keyed.get?_put]

theorem get?_put_self (node : FileNode) (h : t.get? place ≠ some .directory) :
    (t.put place node).get? place = some node := by
  have hne : place ≠ [] := by
    rintro rfl
    exact h rfl
  rw [get?_put, if_neg hne, if_pos rfl]

theorem get?_put_of_ne (node : FileNode) {other : Location} (h : other ≠ place) :
    (t.put place node).get? other = t.get? other := by
  rw [get?_put, if_neg h]
  split
  · next he => rw [he, get?, if_pos rfl]
  · rfl

/-- What is put in a place where no directory is has no steps below it to lead astray: steps that
lead anywhere still lead there. -/
theorem resolve_put {other : Location} (node : FileNode) (hplace : t.get? place ≠ some .directory)
    {here : Location} {steps : List Text} (h : t.resolve here steps = .ok other) :
    (t.put place node).resolve here steps = .ok other := by
  induction steps generalizing here with
  | nil => exact h
  | cons step rest ih =>
    unfold resolve at h ⊢
    by_cases hstays : PathName.staysPut step = true
    · rw [if_pos hstays] at h ⊢
      exact ih h
    rw [if_neg hstays] at h ⊢
    by_cases hup : PathName.goesUp step = true
    · rw [if_pos hup] at h ⊢
      exact ih h
    rw [if_neg hup] at h ⊢
    by_cases hlong : maxStep < nameSize step
    · rw [if_pos hlong] at h
      cases h
    rw [if_neg hlong] at h ⊢
    by_cases he : here ++ [step] = place
    · rw [he] at h
      have hend : rest = [] ∧ place = other := by
        split at h
        · next hget => exact absurd hget hplace
        · split at h
          · next hrest => exact ⟨hrest, Except.ok.inj h⟩
          · cases h
        · split at h
          · next hrest => exact ⟨hrest, Except.ok.inj h⟩
          · cases h
      obtain ⟨rfl, rfl⟩ := hend
      rw [he, get?_put_self _ hplace]
      cases node with
      | directory => rfl
      | file bytes => rfl
    · rw [get?_put_of_ne _ he]
      split at h
      · exact ih h
      · exact h
      · exact h

theorem locate_put {other : Location} (node : FileNode) (hplace : t.get? place ≠ some .directory)
    (h : t.locate home p = .ok other) : (t.put place node).locate home p = .ok other := by
  unfold locate at h ⊢
  split
  · next hlong =>
    rw [if_pos hlong] at h
    cases h
  · next hlong =>
    rw [if_neg hlong] at h
    exact resolve_put node hplace h

theorem read_eq_ok_iff : t.read home p = .ok bytes ↔
    ∃ place, t.locate home p = .ok place ∧ t.get? place = some (.file bytes) := by
  unfold read
  rw [Traverse.bind_eq_ok_iff]
  refine exists_congr fun place => and_congr_right fun _ => ?_
  split
  · next content hget => simp [hget, Traverse.pure_eq_ok_iff]
  · next hget => simp [hget, Traverse.throw_eq_ok_iff]
  · next hget => simp [hget, Traverse.throw_eq_ok_iff]

theorem write_eq_ok_iff : t.write home p bytes guarded = .ok t' ↔
    ∃ place, t.locate home p = .ok place ∧ t.get? place ≠ some .directory ∧
      t.changed place ∉ guarded ∧ t' = t.put place (.file bytes) := by
  unfold write
  rw [Traverse.bind_eq_ok_iff]
  refine exists_congr fun place => and_congr_right fun _ => ?_
  split
  · next hget => simp [hget, Traverse.throw_eq_ok_iff]
  · next hget =>
    split
    · next hguarded => simp [hguarded, Traverse.throw_eq_ok_iff]
    · next hguarded =>
      rw [Traverse.pure_eq_ok_iff, eq_comm]
      exact ⟨fun h => ⟨hget, hguarded, h⟩, fun h => h.2.2⟩

theorem read_of_write (h : t.write home p bytes guarded = .ok t') :
    t'.read home p = .ok bytes := by
  obtain ⟨place, hlocate, hplace, -, rfl⟩ := write_eq_ok_iff.mp h
  exact read_eq_ok_iff.mpr ⟨place, locate_put _ hplace hlocate, get?_put_self _ hplace⟩

/-- Where one content can be written, any other can. -/
theorem exists_write_ok (h : t.write home p bytes guarded = .ok t') (other : ByteArray) :
    ∃ t'', t.write home p other guarded = .ok t'' := by
  obtain ⟨place, hlocate, hplace, hguarded, -⟩ := write_eq_ok_iff.mp h
  exact ⟨_, write_eq_ok_iff.mpr ⟨place, hlocate, hplace, hguarded, rfl⟩⟩

end FileTree

end Reshape

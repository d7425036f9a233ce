import Reshape.Proofs.Storage.FileTree

/-!
# Directories made on the way

What a tree is like when the directories of a name have been made, all of them or some until one
was refused (`makeDirectories_grown`). Directories stand where nothing was, and only where the
first steps of the name lead; all else is as before.
-/

namespace Reshape

namespace FileTree

variable {start place home : Location} {steps : List Text} {t t' t'' : FileTree} {p : PathName}
  {guarded : List Location}

/-- A directory was made where nothing was, at a place where the first of some steps lead. -/
structure MadeAlong (start : Location) (steps : List Text) (t t' : FileTree) (place : Location) :
    Prop where
  absent : t.get? place = none
  present : t'.get? place = some .directory
  along : ∃ above, above <+: steps ∧ t'.resolve start above = .ok place

/-- Only directories along some steps were made. Steps that led anywhere lead there as before. -/
structure Grown (start : Location) (steps : List Text) (t t' : FileTree) : Prop where
  get? : ∀ place, t'.get? place = t.get? place ∨ MadeAlong start steps t t' place
  resolve : ∀ here rest place, t.resolve here rest = .ok place → t'.resolve here rest = .ok place

namespace Grown

theorem refl (start : Location) (steps : List Text) (t : FileTree) : Grown start steps t t where
  get? _ := .inl rfl
  resolve _ _ _ h := h

theorem trans (h : Grown start steps t t') (h' : Grown start steps t' t'') :
    Grown start steps t t'' where
  get? place := by
    rcases h'.get? place with hsame' | hmade'
    · rcases h.get? place with hsame | hmade
      · exact .inl (hsame'.trans hsame)
      · obtain ⟨above, habove, hresolve⟩ := hmade.along
        exact .inr
          { absent := hmade.absent
            present := hsame'.trans hmade.present
            along := ⟨above, habove, h'.resolve _ _ _ hresolve⟩ }
    · rcases h.get? place with hsame | hmade
      · exact .inr { hmade' with absent := hsame.symm.trans hmade'.absent }
      · have habsent := hmade'.absent
        rw [hmade.present] at habsent
        cases habsent
  resolve here rest place hresolve := h'.resolve _ _ _ (h.resolve _ _ _ hresolve)

theorem of_isPrefix {longer : List Text} (h : Grown start steps t t') (hsteps : steps <+: longer) :
    Grown start longer t t' where
  get? place := (h.get? place).imp_right fun hmade =>
    { hmade with
      along := by
        obtain ⟨above, habove, hresolve⟩ := hmade.along
        exact ⟨above, habove.trans hsteps, hresolve⟩ }
  resolve := h.resolve

theorem of_put (hplace : t.get? place = none) (h : t.resolve start steps = .ok place) :
    Grown start steps t (t.put place .directory) := by
  have hne : t.get? place ≠ some .directory := by
    rw [hplace]
    nofun
  refine ⟨fun other => ?_, fun _ _ _ => resolve_put _ hne⟩
  by_cases he : other = place
  · subst he
    exact .inr ⟨hplace, get?_put_self _ hne, steps, List.prefix_refl _, resolve_put _ hne h⟩
  · exact .inl (get?_put_of_ne _ he)

end Grown

/-! ### Making directories -/

theorem resolve_of_locate (h : t.locate home p = .ok place) :
    t.resolve (startingAt home p.origin) p.steps = .ok place := by
  unfold locate at h
  split at h
  · cases h
  · exact h

theorem makeDirectory_eq_ok_iff : t.makeDirectory home p guarded = .ok t' ↔
    ∃ place, t.locate home p = .ok place ∧ t.get? place = none ∧ t.changed place ∉ guarded ∧
      t' = t.put place .directory := by
  unfold makeDirectory
  rw [Traverse.bind_eq_ok_iff]
  refine exists_congr fun place => and_congr_right fun _ => ?_
  split
  · next hget => simp [hget, Traverse.throw_eq_ok_iff]
  · next hget =>
    split
    · next hguarded => simp [hguarded, Traverse.throw_eq_ok_iff]
    · next hguarded =>
      rw [Traverse.pure_eq_ok_iff, eq_comm]
      simp [hget, hguarded]

theorem ensureDirectory_grown (h : t.ensureDirectory home p guarded = .ok t') :
    Grown (startingAt home p.origin) p.steps t t' := by
  unfold ensureDirectory at h
  split at h
  · next made hmake =>
    cases h
    obtain ⟨place, hlocate, hplace, -, rfl⟩ := makeDirectory_eq_ok_iff.mp hmake
    exact .of_put hplace (resolve_of_locate hlocate)
  · cases h
  · split at h
    · cases h
      exact .refl _ _ _
    · cases h

theorem path_of_ensureDirectory_error {refusal : Refusal}
    (h : t.ensureDirectory home p guarded = .error refusal) : refusal.path = p := by
  unfold ensureDirectory at h
  split at h
  · cases h
  · cases h
    rfl
  · split at h
    · cases h
    · cases h
      rfl

/-- Whether or not one is refused, all that is done is to make directories along the steps. -/
theorem makeDirectories_grown (t : FileTree) (home : Location) (origin : Origin)
    (upwards : List Text) (guarded : List Location) :
    Grown (startingAt home origin) upwards.reverse t
      (t.makeDirectories home origin upwards guarded).1 := by
  induction upwards generalizing t with
  | nil =>
    unfold makeDirectories
    split
    · next hmade => exact ensureDirectory_grown hmade
    · exact .refl _ _ _
  | cons last above ih =>
    have habove : above.reverse <+: (last :: above).reverse := by
      rw [List.reverse_cons]
      exact List.prefix_append _ _
    unfold makeDirectories
    split
    · next hmade => exact ensureDirectory_grown hmade
    · next p hrefused =>
      obtain rfl : p = _ := path_of_ensureDirectory_error hrefused
      have hparent := (ih t).of_isPrefix habove
      split
      · next made refusal hmade =>
        rw [hmade] at hparent
        exact hparent
      · next made hmade =>
        rw [hmade] at hparent
        split
        · next hlast => exact hparent.trans (ensureDirectory_grown hlast)
        · exact hparent
    · exact .refl _ _ _

end FileTree

end Reshape

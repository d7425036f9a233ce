import Reshape.Proofs.Traverse
import Reshape.Value.Display

/-!
# Room for a text

What has a text where some calls fit has the same text where more fit (`Look.quoted_mono`).
-/

namespace Reshape

namespace Traverse

variable {α β ε : Type}

/-- A traversal goes through again where each of its steps does. -/
theorem mapM_mono {f g : α → Except ε β} (hfg : ∀ x b, f x = .ok b → g x = .ok b) {xs : List α}
    {ys : List β} (h : xs.mapM f = .ok ys) : xs.mapM g = .ok ys := by
  rw [mapM_eq_ok_iff] at h ⊢
  rw [← h]
  refine List.map_congr_left fun x hx => ?_
  have hmem : f x ∈ ys.map Except.ok := h ▸ List.mem_map_of_mem hx
  obtain ⟨b, -, hb⟩ := List.mem_map.mp hmem
  rw [← hb, hfg x b hb.symm]

end Traverse

variable {α : Type} {look : Look α}

theorem Look.quoted_mono {room room' : Nat} (hroom : room ≤ room') {inside : List Nat} {a : α}
    {t : String} (h : look.quoted room inside a = .ok t) : look.quoted room' inside a = .ok t := by
  induction room generalizing room' inside a t with
  | zero => cases h
  | succ room ih =>
    obtain ⟨room', rfl⟩ : ∃ n, room' = n + 1 := ⟨room' - 1, by omega⟩
    have hle : room ≤ room' := by omega
    rw [Look.quoted] at h ⊢
    dsimp only at h ⊢
    cases hview : look.view a with
    | scalar x =>
      rw [hview] at h
      exact h
    | list xs =>
      rw [hview] at h
      dsimp only at h ⊢
      split at h
      · next hagain =>
        rw [if_pos hagain]
        exact h
      · next hagain =>
        rw [if_neg hagain]
        obtain ⟨parts, hparts, hjoin⟩ := Traverse.bind_eq_ok_iff.mp h
        exact Traverse.bind_eq_ok_iff.mpr
          ⟨parts, Traverse.mapM_mono (fun _ _ hx => ih hle hx) hparts, hjoin⟩
    | obj ms =>
      rw [hview] at h
      dsimp only at h ⊢
      split at h
      · next hagain =>
        rw [if_pos hagain]
        exact h
      · next hagain =>
        rw [if_neg hagain]
        obtain ⟨parts, hparts, hjoin⟩ := Traverse.bind_eq_ok_iff.mp h
        refine Traverse.bind_eq_ok_iff.mpr ⟨parts,
          Traverse.mapM_mono (fun m _ hm => ?_) hparts, hjoin⟩
        obtain ⟨shown, hshown, hline⟩ := Traverse.bind_eq_ok_iff.mp hm
        exact Traverse.bind_eq_ok_iff.mpr ⟨shown, ih hle hshown, hline⟩

namespace Value

theorem quoted_mono {room room' : Nat} (hroom : room ≤ room') {v : Value} {t : String}
    (h : v.quoted room = .ok t) : v.quoted room' = .ok t :=
  Look.quoted_mono hroom h

end Value

end Reshape

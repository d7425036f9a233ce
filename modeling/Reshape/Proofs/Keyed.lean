import Reshape.Keyed

/-!
# Laws of keyed lists

Putting and looking up, and what two puts and many puts come to.
-/

namespace Reshape

theorem eraseDups_concat {α : Type} [BEq α] [LawfulBEq α] (seen : List α) (a : α) :
    (seen ++ [a]).eraseDups =
      if a ∈ seen.eraseDups then seen.eraseDups else seen.eraseDups ++ [a] := by
  rw [List.eraseDups_append]
  by_cases h : a ∈ seen <;> simp [List.removeAll, List.eraseDups_cons, h]

namespace Keyed

variable {κ α : Type} [DecidableEq κ]

theorem get?_put (ks : Keyed κ α) (key other : κ) (a : α) :
    get? (put ks key a) other = if other = key then some a else get? ks other := by
  split
  · next h => rw [h, get?_put_self]
  · next h => exact get?_put_of_ne ks a h

@[simp] theorem put_put_self (ks : Keyed κ α) (key : κ) (a b : α) :
    put (put ks key a) key b = put ks key b := by
  induction ks with
  | nil => simp [put]
  | cons p rest ih =>
    by_cases h : p.1 = key
    · simp [put, h]
    · simp [put, h, ih]

theorem put_of_not_mem {ks : Keyed κ α} {key : κ} (a : α) (h : key ∉ keys ks) :
    put ks key a = ks ++ [(key, a)] := by
  induction ks with
  | nil => rfl
  | cons p rest ih =>
    simp only [keys, List.map_cons, List.mem_cons, not_or] at h
    simp [put, Ne.symm h.1, ih h.2]

theorem putAll_of_nodup {start pairs : Keyed κ α} (h : (keys (start ++ pairs)).Nodup) :
    putAll start pairs = start ++ pairs := by
  induction pairs generalizing start with
  | nil => rw [List.append_nil, putAll, List.foldl_nil]
  | cons p rest ih =>
    have hnew : p.1 ∉ keys start := by
      rw [keys, List.map_append, List.nodup_append] at h
      exact fun hm => h.2.2 _ hm _ List.mem_cons_self rfl
    have hstep : start ++ p :: rest = (start ++ [p]) ++ rest := by simp
    rw [putAll, List.foldl_cons, put_of_not_mem _ hnew, hstep]
    exact ih (hstep ▸ h)

theorem ofList_of_nodup {pairs : Keyed κ α} (h : (keys pairs).Nodup) : ofList pairs = pairs :=
  putAll_of_nodup h

/-- The order of two puts shows only in the order of new names. -/
theorem keys_put_comm (ks : Keyed κ α) (key other : κ) (a b : α) :
    (keys (put (put ks key a) other b)).Perm (keys (put (put ks other b) key a)) := by
  by_cases h : other = key
  · subst h
    simp only [put_put_self, keys_put]
    exact .refl _
  simp only [keys_put]
  by_cases hk : key ∈ keys ks <;> by_cases ho : other ∈ keys ks <;> simp [hk, ho, h, Ne.symm h]
  exact List.Perm.append_left _ (.swap _ _ _)

theorem get?_put_comm (ks : Keyed κ α) {key other : κ} (a b : α) (h : other ≠ key) (k : κ) :
    get? (put (put ks key a) other b) k = get? (put (put ks other b) key a) k := by
  simp only [get?_put]
  split
  · next hk => rw [if_neg (hk ▸ h)]
  · rfl

theorem get?_eq_none_iff {ks : Keyed κ α} {key : κ} : get? ks key = none ↔ key ∉ keys ks := by
  rw [mem_keys_iff]
  cases get? ks key <;> simp

theorem mem_of_get? {ks : Keyed κ α} {key : κ} {a : α} (h : get? ks key = some a) :
    (key, a) ∈ ks := by
  induction ks with
  | nil => cases h
  | cons p rest ih =>
    obtain ⟨k, b⟩ := p
    rw [get?] at h
    split at h
    · next hk =>
      cases h
      exact hk ▸ List.mem_cons_self
    · exact List.mem_cons_of_mem _ (ih h)

theorem mem_put {ks : Keyed κ α} {key : κ} {a : α} {p : κ × α} (h : p ∈ put ks key a) :
    p ∈ ks ∨ p = (key, a) := by
  induction ks with
  | nil => exact .inr (List.mem_singleton.mp h)
  | cons q rest ih =>
    obtain ⟨k, b⟩ := q
    rw [put] at h
    split at h
    · next hk =>
      rcases List.mem_cons.mp h with rfl | hrest
      · exact .inr (by rw [hk])
      · exact .inl (List.mem_cons_of_mem _ hrest)
    · rcases List.mem_cons.mp h with rfl | hrest
      · exact .inl List.mem_cons_self
      · exact (ih hrest).imp_left (List.mem_cons_of_mem _)

/-- A put changes one entry, or adds one at the end. -/
theorem exists_put (ks : Keyed κ α) (key : κ) :
    ∃ before after, (∀ a, put ks key a = before ++ (key, a) :: after) ∧
      (get? ks key = none ∧ ks = before ∧ after = [] ∨
        ∃ old, get? ks key = some old ∧ ks = before ++ (key, old) :: after) := by
  induction ks with
  | nil => exact ⟨[], [], fun _ => rfl, .inl ⟨rfl, rfl, rfl⟩⟩
  | cons p rest ih =>
    obtain ⟨k, b⟩ := p
    by_cases hk : k = key
    · subst hk
      exact ⟨[], rest, fun a => by simp [put], .inr ⟨b, by simp [Keyed.get?], rfl⟩⟩
    · obtain ⟨before, after, hput, hold⟩ := ih
      refine ⟨(k, b) :: before, after, fun a => by simp [put, hk, hput], ?_⟩
      rcases hold with ⟨hnone, hks, hafter⟩ | ⟨old, hsome, hks⟩
      · exact .inl ⟨by simp [get?, hk, hnone], by rw [hks], hafter⟩
      · exact .inr ⟨old, by simp [get?, hk, hsome], by rw [hks]; rfl⟩

theorem put_of_get? {ks : Keyed κ α} {key : κ} {a : α} (h : get? ks key = some a) :
    put ks key a = ks := by
  obtain ⟨before, after, hput, hold⟩ := exists_put ks key
  rw [hput]
  rcases hold with ⟨hnone, -⟩ | ⟨old, hsome, hks⟩
  · cases hnone.symm.trans h
  · cases hsome.symm.trans h
    exact hks.symm

theorem nodup_keys_put {ks : Keyed κ α} (h : (keys ks).Nodup) (key : κ) (a : α) :
    (keys (put ks key a)).Nodup := by
  rw [keys_put]
  split
  · exact h
  · next hkey =>
    refine List.nodup_append.mpr ⟨h, List.pairwise_singleton _ key, fun k hk l hl => ?_⟩
    rw [List.mem_singleton.mp hl]
    exact fun e => hkey (e ▸ hk)

/-! ### Many puts -/

theorem mem_putAll {start pairs : Keyed κ α} {p : κ × α} (h : p ∈ putAll start pairs) :
    p ∈ start ∨ p ∈ pairs := by
  induction pairs generalizing start with
  | nil => exact .inl h
  | cons q rest ih =>
    rcases ih h with hput | hrest
    · rcases mem_put hput with hstart | rfl
      · exact .inl hstart
      · exact .inr List.mem_cons_self
    · exact .inr (List.mem_cons_of_mem _ hrest)

theorem nodup_keys_putAll {start : Keyed κ α} (h : (keys start).Nodup) (pairs : Keyed κ α) :
    (keys (putAll start pairs)).Nodup := by
  induction pairs generalizing start with
  | nil => exact h
  | cons p rest ih => exact ih (nodup_keys_put h p.1 p.2)

/-- What was put last under a name is found, where no name is put twice. -/
theorem get?_putAll {pairs : Keyed κ α} (h : (keys pairs).Nodup) (start : Keyed κ α) (key : κ) :
    get? (putAll start pairs) key = (get? pairs key).or (get? start key) := by
  induction pairs generalizing start with
  | nil => rfl
  | cons p rest ih =>
    obtain ⟨k, a⟩ := p
    obtain ⟨hnew, hrest⟩ := List.nodup_cons.mp h
    rw [putAll, List.foldl_cons, ← putAll, ih hrest, get?_put, get?]
    by_cases hkey : k = key
    · subst hkey
      rw [get?_eq_none_iff.mpr hnew, if_pos rfl, if_pos rfl, Option.none_or, Option.some_or]
    · rw [if_neg hkey, if_neg (Ne.symm hkey)]

variable [BEq κ] [LawfulBEq κ]

/-- A name stands where it was first put. -/
theorem keys_putAll {start : Keyed κ α} {seen : List κ} (h : keys start = seen.eraseDups)
    (pairs : Keyed κ α) : keys (putAll start pairs) = (seen ++ keys pairs).eraseDups := by
  induction pairs generalizing start seen with
  | nil => rw [putAll, List.foldl_nil, h, keys, List.map_nil, List.append_nil]
  | cons p rest ih =>
    have hstep : keys (put start p.1 p.2) = (seen ++ [p.1]).eraseDups := by
      rw [keys_put, h, eraseDups_concat]
      by_cases hmem : p.1 ∈ seen.eraseDups
      · rw [if_pos hmem, if_pos hmem]
      · rw [if_neg hmem, if_neg hmem]
    rw [putAll, List.foldl_cons, ← putAll, ih hstep, List.append_assoc]
    rfl

theorem keys_eq_eraseDups {ks : Keyed κ α} (h : (keys ks).Nodup) :
    keys ks = (keys ks).eraseDups := by
  have hnil : keys ([] : Keyed κ α) = ([] : List κ).eraseDups := rfl
  have hself : putAll [] ks = ks := putAll_of_nodup h
  rw [← List.nil_append (keys ks), ← keys_putAll hnil ks, hself, List.nil_append]

end Keyed

end Reshape

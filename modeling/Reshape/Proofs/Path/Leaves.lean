import Reshape.Proofs.Path.Write

/-!
# Leaves

A leaf of an object is a value in it that is not a non-empty object; lists are leaves as a whole.
`memberLeaves` lists the leaves in the order of the keys, each with the keys that lead to it
(`along_memberLeaves`). Writing them one after the other grows the same object again, in the same
order (`regrow_memberLeaves`).
-/

namespace Reshape

/-- A value inside another, with the keys that lead to it. -/
abbrev Leaf := List Text × Value

namespace Leaf

/-- The leaf as it is seen from an object that has its object under a key. -/
def under (key : Text) (leaf : Leaf) : Leaf :=
  (key :: leaf.1, leaf.2)

end Leaf

/-- A value that is not a non-empty object. -/
def Value.isLeaf : Value → Bool
  | .obj ms => ms.isEmpty
  | _ => true

mutual

/-- The leaves of a value: the leaves of its members, or the value itself. -/
def Value.leaves : Value → List Leaf
  | .obj ms => if ms.isEmpty then [([], .obj ms)] else memberLeaves ms
  | v => [([], v)]

def memberLeaves : List (Text × Value) → List Leaf
  | [] => []
  | (key, v) :: rest => v.leaves.map (Leaf.under key) ++ memberLeaves rest

end

mutual

/-- The keys of an object and of the objects in it, but not of those in lists. -/
def Value.keysWithin : Value → List Text
  | .obj ms => memberKeys ms
  | _ => []

def memberKeys : List (Text × Value) → List Text
  | [] => []
  | (key, v) :: rest => key :: v.keysWithin ++ memberKeys rest

end

mutual

/-- No object has two members of one key, lists aside. -/
def Value.keysDistinct : Value → Bool
  | .obj ms => membersDistinct ms
  | _ => true

def membersDistinct : List (Text × Value) → Bool
  | [] => true
  | (key, v) :: rest =>
    decide (key ∉ Keyed.keys rest) && (v.keysDistinct && membersDistinct rest)

end

theorem membersDistinct_cons {key : Text} {v : Value} {rest : List (Text × Value)} :
    membersDistinct ((key, v) :: rest) = true ↔
      key ∉ Keyed.keys rest ∧ v.keysDistinct = true ∧ membersDistinct rest = true := by
  rw [membersDistinct, Bool.and_eq_true, Bool.and_eq_true, decide_eq_true_iff]

theorem memberLeaves_leaf {v : Value} (hv : v.isLeaf = true) (key : Text)
    (rest : List (Text × Value)) :
    memberLeaves ((key, v) :: rest) = ([key], v) :: memberLeaves rest := by
  have hone : v.leaves = [([], v)] := by
    cases v with
    | obj ms => exact if_pos hv
    | _ => rfl
  rw [memberLeaves, hone]
  rfl

theorem memberLeaves_branch {ms : List (Text × Value)} (hne : ms ≠ []) (key : Text)
    (rest : List (Text × Value)) :
    memberLeaves ((key, .obj ms) :: rest) =
      (memberLeaves ms).map (Leaf.under key) ++ memberLeaves rest := by
  rw [memberLeaves, Value.leaves, if_neg fun h => hne (List.isEmpty_iff.mp h)]

/-- An object is empty, or its first member is a leaf, or the first member is an object that is
not empty. -/
@[elab_as_elim]
theorem memberLeaves_induction {motive : List (Text × Value) → Prop} (nil : motive [])
    (leaf : ∀ key v rest, v.isLeaf = true → motive rest → motive ((key, v) :: rest))
    (branch : ∀ key ms rest, ms ≠ [] → motive ms → motive rest →
      motive ((key, .obj ms) :: rest)) : ∀ ms, motive ms
  | [] => nil
  | (key, .obj (m :: ms)) :: rest =>
    branch key (m :: ms) rest (List.cons_ne_nil m ms)
      (memberLeaves_induction nil leaf branch (m :: ms))
      (memberLeaves_induction nil leaf branch rest)
  | (key, .obj []) :: rest | (key, .null) :: rest | (key, .bool _) :: rest
  | (key, .int _) :: rest | (key, .double _) :: rest | (key, .str _) :: rest
  | (key, .list _) :: rest => leaf key _ rest rfl (memberLeaves_induction nil leaf branch rest)

/-! ### Where the leaves are -/

variable {ms : List (Text × Value)} {leaf : Leaf}

theorem exists_key_of_mem_memberLeaves (h : leaf ∈ memberLeaves ms) :
    ∃ key ∈ Keyed.keys ms, ∃ rest, leaf.1 = key :: rest := by
  induction ms using memberLeaves_induction with
  | nil => cases h
  | leaf key v rest hv ih =>
    rw [memberLeaves_leaf hv, List.mem_cons] at h
    rcases h with rfl | h
    · exact ⟨key, List.mem_cons_self, [], rfl⟩
    · obtain ⟨k, hk, tail, ht⟩ := ih h
      exact ⟨k, List.mem_cons_of_mem _ hk, tail, ht⟩
  | branch key ms rest hne _ ih =>
    rw [memberLeaves_branch hne, List.mem_append, List.mem_map] at h
    rcases h with ⟨inner, -, rfl⟩ | h
    · exact ⟨key, List.mem_cons_self, inner.1, rfl⟩
    · obtain ⟨k, hk, tail, ht⟩ := ih h
      exact ⟨k, List.mem_cons_of_mem _ hk, tail, ht⟩

theorem ne_nil_of_mem_memberLeaves (h : leaf ∈ memberLeaves ms) : leaf.1 ≠ [] := by
  obtain ⟨key, -, rest, hr⟩ := exists_key_of_mem_memberLeaves h
  rw [hr]
  exact List.cons_ne_nil key rest

theorem mem_memberKeys_of_mem_memberLeaves (h : leaf ∈ memberLeaves ms) {k : Text}
    (hk : k ∈ leaf.1) : k ∈ memberKeys ms := by
  induction ms using memberLeaves_induction generalizing leaf with
  | nil => cases h
  | leaf key v rest hv ih =>
    rw [memberLeaves_leaf hv, List.mem_cons] at h
    rw [memberKeys, List.mem_append, List.mem_cons]
    rcases h with rfl | h
    · exact .inl (.inl (List.mem_singleton.mp hk))
    · exact .inr (ih h hk)
  | branch key ms rest hne ihm ih =>
    rw [memberLeaves_branch hne, List.mem_append, List.mem_map] at h
    rw [memberKeys, List.mem_append, List.mem_cons]
    rcases h with ⟨inner, hin, rfl⟩ | h
    · exact .inl ((List.mem_cons.mp hk).imp_right (ihm hin))
    · exact .inr (ih h hk)

/-- A leaf of the other members has another first key. -/
theorem along_rest {key : Text} {v : Value} {rest : List (Text × Value)}
    (hk : key ∉ Keyed.keys rest) (h : leaf ∈ memberLeaves rest) :
    (Value.obj ((key, v) :: rest)).along leaf.1 = (Value.obj rest).along leaf.1 := by
  obtain ⟨k, hkey, tail, ht⟩ := exists_key_of_mem_memberLeaves h
  have hne : key ≠ k := fun e => hk (e ▸ hkey)
  rw [ht, Value.along, Value.along, Keyed.get?, if_neg hne]

/-- The keys of a leaf lead to it. -/
theorem along_memberLeaves (hd : membersDistinct ms = true) (h : leaf ∈ memberLeaves ms) :
    (Value.obj ms).along leaf.1 = some leaf.2 := by
  induction ms using memberLeaves_induction generalizing leaf with
  | nil => cases h
  | leaf key v rest hv ih =>
    obtain ⟨hk, -, hr⟩ := membersDistinct_cons.mp hd
    rw [memberLeaves_leaf hv, List.mem_cons] at h
    rcases h with rfl | h
    · rw [Value.along, Keyed.get?, if_pos rfl]
      rfl
    · rw [along_rest hk h]
      exact ih hr h
  | branch key ms rest hne ihm ih =>
    obtain ⟨hk, hm, hr⟩ := membersDistinct_cons.mp hd
    rw [memberLeaves_branch hne, List.mem_append, List.mem_map] at h
    rcases h with ⟨inner, hin, rfl⟩ | h
    · rw [Leaf.under, Value.along, Keyed.get?, if_pos rfl]
      exact ihm hm hin
    · rw [along_rest hk h]
      exact ih hr h

/-! ### No place is inside another -/

/-- Leaves of the other members are apart from all that is under the first key. -/
theorem apart_rest {key : Text} {rest : List (Text × Value)} (hk : key ∉ Keyed.keys rest)
    (tail : List Text) (h : leaf ∈ memberLeaves rest) :
    Target.Apart ((key :: tail).map .field) (leaf.1.map .field) := by
  obtain ⟨k, hkey, others, ho⟩ := exists_key_of_mem_memberLeaves h
  have hne : key ≠ k := fun e => hk (e ▸ hkey)
  rw [ho, List.map_cons, List.map_cons, Target.Apart, if_neg fun e => hne (Slot.field.inj e)]
  exact hne

theorem pairwise_apart_memberLeaves (hd : membersDistinct ms = true) :
    (memberLeaves ms).Pairwise fun leaf other =>
      Target.Apart (leaf.1.map .field) (other.1.map .field) := by
  induction ms using memberLeaves_induction with
  | nil => exact .nil
  | leaf key v rest hv ih =>
    obtain ⟨hk, -, hr⟩ := membersDistinct_cons.mp hd
    rw [memberLeaves_leaf hv, List.pairwise_cons]
    exact ⟨fun other ho => apart_rest hk [] ho, ih hr⟩
  | branch key ms rest hne ihm ih =>
    obtain ⟨hk, hm, hr⟩ := membersDistinct_cons.mp hd
    rw [memberLeaves_branch hne, List.pairwise_append]
    refine ⟨List.pairwise_map.mpr ((ihm hm).imp fun happart => ?_), ih hr,
      fun leaf hl other ho => ?_⟩
    · rw [Leaf.under, Leaf.under, List.map_cons, List.map_cons, Target.Apart, if_pos rfl]
      exact happart
    · obtain ⟨inner, -, rfl⟩ := List.mem_map.mp hl
      exact apart_rest hk inner.1 ho

/-! ### Growing an object from its leaves -/

/-- Writes leaves to where they are, one after the other. -/
def regrow (ms : Members) (leaves : List Leaf) : Members :=
  leaves.foldl (fun ms leaf => write ms (leaf.1.map .field) leaf.2) ms

theorem regrow_append (ms : Members) (leaves more : List Leaf) :
    regrow ms (leaves ++ more) = regrow (regrow ms leaves) more :=
  List.foldl_append

/-- Leaves under one key are written into the object there. -/
theorem regrow_under (key : Text) (ms inner : Members) {leaves : List Leaf}
    (hl : ∀ leaf ∈ leaves, leaf.1 ≠ []) :
    regrow (Keyed.put ms key (.obj inner)) (leaves.map (Leaf.under key)) =
      Keyed.put ms key (.obj (regrow inner leaves)) := by
  induction leaves generalizing inner with
  | nil => rfl
  | cons leaf leaves ih =>
    rw [List.forall_mem_cons] at hl
    obtain ⟨k, rest, hk⟩ := List.exists_cons_of_ne_nil hl.1
    have hstep : write (Keyed.put ms key (.obj inner)) ((leaf.under key).1.map .field)
        (leaf.under key).2 =
        Keyed.put ms key (.obj (write inner (leaf.1.map .field) leaf.2)) := by
      rw [Leaf.under, hk, List.map_cons, Target.write_cons, Slot.key, Keyed.get?_put_self,
        Keyed.put_put_self]
      rfl
    rw [List.map_cons, regrow, List.foldl_cons, hstep]
    exact ih _ hl.2

/-- The first leaf under a new key makes the object that the others are written into. -/
theorem regrow_under_new {key : Text} {ms : Members} (hnew : key ∉ Keyed.keys ms)
    {leaves : List Leaf} (hl : ∀ leaf ∈ leaves, leaf.1 ≠ []) (hne : leaves ≠ []) :
    regrow ms (leaves.map (Leaf.under key)) = ms ++ [(key, .obj (regrow [] leaves))] := by
  obtain ⟨leaf, leaves, rfl⟩ := List.exists_cons_of_ne_nil hne
  rw [List.forall_mem_cons] at hl
  obtain ⟨k, rest, hk⟩ := List.exists_cons_of_ne_nil hl.1
  have hstep : write ms ((leaf.under key).1.map .field) (leaf.under key).2 =
      Keyed.put ms key (.obj (write [] (leaf.1.map .field) leaf.2)) := by
    rw [Leaf.under, hk, List.map_cons, Target.write_cons, Slot.key,
      Keyed.get?_eq_none_iff.mpr hnew]
    rfl
  rw [List.map_cons, regrow, List.foldl_cons, hstep, ← Keyed.put_of_not_mem _ hnew]
  exact regrow_under key ms _ hl.2

/-- Once the first of new members is there, the others are still new. -/
theorem fresh_keys_append {key : Text} {v : Value} {rest : List (Text × Value)} {done : Members}
    (hk : key ∉ Keyed.keys rest)
    (hnew : ∀ k ∈ Keyed.keys ((key, v) :: rest), k ∉ Keyed.keys done) :
    ∀ k ∈ Keyed.keys rest, k ∉ Keyed.keys (done ++ [(key, v)]) := by
  intro k hkr hmem
  rw [Keyed.keys, List.map_append, List.mem_append] at hmem
  rcases hmem with hmem | hmem
  · exact hnew k (List.mem_cons_of_mem key hkr) hmem
  · have hlast : k = key := List.mem_singleton.mp hmem
    exact hk (hlast ▸ hkr)

theorem memberLeaves_ne_nil (hne : ms ≠ []) : memberLeaves ms ≠ [] := by
  induction ms using memberLeaves_induction with
  | nil => exact (hne rfl).elim
  | leaf key v rest hv =>
    rw [memberLeaves_leaf hv]
    exact List.cons_ne_nil _ _
  | branch key ms rest hms ih =>
    rw [memberLeaves_branch hms]
    exact List.append_ne_nil_of_left_ne_nil (mt List.map_eq_nil_iff.mp (ih hms)) _

/-- The leaves of new members grow these members, in their order, behind what is there. -/
theorem regrow_memberLeaves {done : Members} (hd : membersDistinct ms = true)
    (hnew : ∀ key ∈ Keyed.keys ms, key ∉ Keyed.keys done) :
    regrow done (memberLeaves ms) = done ++ ms := by
  induction ms using memberLeaves_induction generalizing done with
  | nil => exact (List.append_nil done).symm
  | leaf key v rest hv ih =>
    obtain ⟨hk, -, hr⟩ := membersDistinct_cons.mp hd
    have hput : Keyed.put done key v = done ++ [(key, v)] :=
      Keyed.put_of_not_mem v (hnew key List.mem_cons_self)
    rw [memberLeaves_leaf hv, regrow, List.foldl_cons]
    change regrow (Keyed.put done key v) (memberLeaves rest) = _
    rw [hput, ih hr (fresh_keys_append hk hnew), List.append_assoc]
    rfl
  | branch key ms rest hne ihm ih =>
    obtain ⟨hk, hm, hr⟩ := membersDistinct_cons.mp hd
    have hinner : regrow [] (memberLeaves ms) = ms :=
      ihm hm fun _ _ => List.not_mem_nil
    rw [memberLeaves_branch hne, regrow_append, regrow_under_new (hnew key List.mem_cons_self)
      (fun _ => ne_nil_of_mem_memberLeaves) (memberLeaves_ne_nil hne), hinner,
      ih hr (fresh_keys_append hk hnew), List.append_assoc]
    rfl

end Reshape

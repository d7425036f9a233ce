/-!
# Keyed lists

A list of named things in order. `Keyed.put` replaces a thing where its name stands and adds
a new name at the end, so that the order of the names is the order of their first use.
-/

namespace Reshape

abbrev Keyed (κ α : Type) := List (κ × α)

namespace Keyed

variable {κ α : Type} [DecidableEq κ]

/-- The first thing under a name. -/
def get? : Keyed κ α → κ → Option α
  | [], _ => none
  | (k, a) :: rest, key => if k = key then some a else get? rest key

def put : Keyed κ α → κ → α → Keyed κ α
  | [], key, a => [(key, a)]
  | (k, b) :: rest, key, a =>
    if k = key then (k, a) :: rest else (k, b) :: put rest key a

/-- All of `pairs` put one after the other. -/
def putAll (start pairs : Keyed κ α) : Keyed κ α :=
  pairs.foldl (fun ks p => put ks p.1 p.2) start

/-- A repeated name keeps its first place and takes its last thing. -/
def ofList (pairs : List (κ × α)) : Keyed κ α :=
  putAll [] pairs

def keys (ks : Keyed κ α) : List κ :=
  ks.map Prod.fst

@[simp] theorem get?_put_self (ks : Keyed κ α) (key : κ) (a : α) :
    get? (put ks key a) key = some a := by
  induction ks with
  | nil => simp [put, get?]
  | cons p rest ih => by_cases h : p.1 = key <;> simp [put, get?, h, ih]

theorem get?_put_of_ne (ks : Keyed κ α) {key other : κ} (a : α) (h : other ≠ key) :
    get? (put ks key a) other = get? ks other := by
  induction ks with
  | nil => simp [put, get?, Ne.symm h]
  | cons p rest ih =>
    by_cases hk : p.1 = key
    · simp [put, get?, hk, Ne.symm h]
    · simp [put, get?, hk, ih]

theorem keys_put (ks : Keyed κ α) (key : κ) (a : α) :
    keys (put ks key a) = if key ∈ keys ks then keys ks else keys ks ++ [key] := by
  induction ks with
  | nil => simp [put, keys]
  | cons p rest ih =>
    by_cases hk : p.1 = key
    · simp [put, keys, hk]
    · by_cases hm : key ∈ keys rest <;> simp_all [put, keys, Ne.symm hk]

theorem mem_keys_iff (ks : Keyed κ α) (key : κ) : key ∈ keys ks ↔ (get? ks key).isSome := by
  induction ks with
  | nil => simp [keys, get?]
  | cons p rest ih =>
    by_cases hk : p.1 = key
    · simp [keys, get?, hk]
    · simp_all [keys, get?, Ne.symm hk]

end Keyed

end Reshape

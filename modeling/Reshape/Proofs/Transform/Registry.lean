import Reshape.Proofs.Keyed
import Reshape.Transform.Registry

/-!
# Extending a registry

An extension is taken as a whole or not at all: one value among its functions refuses it
(`Registry.extend_eq_error_iff`). `Registry.extendAll` goes through a list of extensions, where
those that are refused leave the registry as it is. Whatever the list, a name stands for what was
last taken under it, and the names stand in the order in which they were first taken; and all ways
to ask a registry for a name agree (`Registry.extendAll_grown`).
-/

namespace Reshape

namespace Registry

/-- A registry in which every name stands for one function. -/
structure Sound (r : Registry) : Prop where
  nodup : r.names.Nodup
  isFunction : ∀ p ∈ r.entries, p.2.isFunction = true

/-- Nothing but functions. -/
def AllFunctions (extra : Keyed Text Registered) : Prop :=
  ∀ p ∈ extra, p.2.isFunction = true

instance (extra : Keyed Text Registered) : Decidable (AllFunctions extra) :=
  inferInstanceAs (Decidable (∀ p ∈ extra, _))

/-- The extended registry, or the same one if the extension is refused. -/
def extendOrKeep (r : Registry) (extra : Keyed Text Registered) : Registry :=
  match r.extend extra with
  | .ok extended => extended
  | .error _ => r

/-- One extension after the other. -/
def extendAll (r : Registry) (steps : List (Keyed Text Registered)) : Registry :=
  steps.foldl extendOrKeep r

/-- The extensions that are taken. -/
def taken (steps : List (Keyed Text Registered)) : List (Keyed Text Registered) :=
  steps.filter (AllFunctions ·)

/-- What the last extension that was taken with the name in it has under it. -/
def latest? (steps : List (Keyed Text Registered)) (name : Text) : Option Registered :=
  (taken steps).reverse.findSome? (Keyed.get? · name)

/-- What has become of a registry that was extended step by step. -/
structure Grown (start : Registry) (steps : List (Keyed Text Registered)) (last : Registry) :
    Prop where
  sound : last.Sound
  lookup : ∀ name : Text,
    last.lookup (.str name) = (latest? steps name).or (start.lookup (.str name))
  names : last.names = (start.names ++ (taken steps).flatMap Keyed.keys).eraseDups
  size : last.size = last.names.length
  get? : ∀ name : Text, last.get? name = last.lookup (.str name)
  isSome_lookup : ∀ name : Text, (last.lookup (.str name)).isSome ↔ name ∈ last.names
  contains : ∀ name : Text, last.contains name = true ↔ name ∈ last.names

variable {r start : Registry} {extra : Keyed Text Registered} {name : Text}

/-! ### One extension -/

theorem extend_eq_error_iff :
    r.extend extra = .error name ↔ ∃ before found after,
      extra = before ++ (name, found) :: after ∧ found.isFunction = false ∧
        AllFunctions before := by
  have hfind : r.extend extra = .error name ↔
      ∃ found, extra.find? (fun p => !p.2.isFunction) = some (name, found) := by
    unfold extend
    split
    · next p hp => simp [hp, Prod.ext_iff]
    · next hp => simp [hp]
  rw [hfind]
  simp only [List.find?_eq_some_iff_append, Bool.not_eq_true', Bool.not_not]
  constructor
  · rintro ⟨found, hfound, before, after, heq, hbefore⟩
    exact ⟨before, found, after, heq, hfound, hbefore⟩
  · rintro ⟨before, found, after, heq, hfound, hbefore⟩
    exact ⟨found, hfound, before, after, heq, hbefore⟩

theorem extend_of_allFunctions (h : AllFunctions extra) :
    r.extend extra = .ok ⟨Keyed.putAll r.entries extra⟩ := by
  have hnone : extra.find? (fun p => !p.2.isFunction) = none :=
    List.find?_eq_none.mpr fun p hp => by simp [h p hp]
  rw [extend, hnone]

theorem exists_extend_error (h : ¬ AllFunctions extra) : ∃ name, r.extend extra = .error name := by
  unfold extend
  split
  · next p _ => exact ⟨p.1, rfl⟩
  · next hnone => exact absurd (fun p hp => by simpa using List.find?_eq_none.mp hnone p hp) h

theorem exists_extend_error_iff :
    (∃ name, r.extend extra = .error name) ↔ ∃ p ∈ extra, p.2.isFunction = false := by
  have hsome : (∃ p ∈ extra, p.2.isFunction = false) ↔ ¬ AllFunctions extra := by
    simp [AllFunctions]
  rw [hsome]
  constructor
  · rintro ⟨name, herror⟩ hall
    rw [extend_of_allFunctions hall] at herror
    cases herror
  · exact exists_extend_error

theorem extendOrKeep_of_allFunctions (h : AllFunctions extra) :
    r.extendOrKeep extra = ⟨Keyed.putAll r.entries extra⟩ := by
  rw [extendOrKeep, extend_of_allFunctions h]

/-- Nothing of an extension that is refused is taken, not even its functions. -/
theorem extendOrKeep_of_error (h : r.extend extra = .error name) : r.extendOrKeep extra = r := by
  rw [extendOrKeep, h]

theorem extendOrKeep_of_not_allFunctions (h : ¬ AllFunctions extra) :
    r.extendOrKeep extra = r := by
  obtain ⟨name, herror⟩ := exists_extend_error (r := r) h
  exact extendOrKeep_of_error herror

theorem Sound.extendOrKeep (h : r.Sound) (extra : Keyed Text Registered) :
    (r.extendOrKeep extra).Sound := by
  by_cases hall : AllFunctions extra
  · rw [extendOrKeep_of_allFunctions hall]
    exact ⟨Keyed.nodup_keys_putAll h.nodup extra, fun p hp =>
      (Keyed.mem_putAll hp).elim (h.isFunction p) (hall p)⟩
  · rwa [extendOrKeep_of_not_allFunctions hall]

/-! ### Asking for a name -/

/-- A function is found under its name in whatever way it is asked for. -/
theorem Sound.lookup_eq_get? (h : r.Sound) (name : Text) :
    r.lookup (.str name) = r.get? name := by
  have hlookup : r.lookup (.str name) = (r.get? name).filter (!·.isNull) := rfl
  rw [hlookup]
  cases hfound : r.get? name with
  | none => rfl
  | some found =>
    have hfunction : found.isFunction = true := h.isFunction _ (Keyed.mem_of_get? hfound)
    cases found with
    | function f => rfl
    | constant v => cases hfunction

theorem isSome_get?_iff : (r.get? name).isSome ↔ name ∈ r.names :=
  (Keyed.mem_keys_iff r.entries name).symm

/-! ### One extension after the other -/

variable {seen : List Text} {steps : List (Keyed Text Registered)}

theorem taken_cons (extra : Keyed Text Registered) (steps : List (Keyed Text Registered)) :
    taken (extra :: steps) = if AllFunctions extra then extra :: taken steps else taken steps := by
  rw [taken, List.filter_cons]
  by_cases hall : AllFunctions extra <;> simp [hall, taken]

theorem latest?_cons (extra : Keyed Text Registered) (steps : List (Keyed Text Registered))
    (name : Text) : latest? (extra :: steps) name =
      if AllFunctions extra then (latest? steps name).or (Keyed.get? extra name)
      else latest? steps name := by
  rw [latest?, taken_cons]
  split
  · rw [List.reverse_cons, List.findSome?_append, List.findSome?_singleton, latest?]
  · rfl

theorem Sound.extendAll (h : start.Sound) (steps : List (Keyed Text Registered)) :
    (start.extendAll steps).Sound := by
  induction steps generalizing start with
  | nil => exact h
  | cons extra steps ih => exact ih (h.extendOrKeep extra)

theorem names_extendAll (h : start.names = seen.eraseDups) (steps : List (Keyed Text Registered)) :
    (start.extendAll steps).names = (seen ++ (taken steps).flatMap Keyed.keys).eraseDups := by
  induction steps generalizing start seen with
  | nil => rwa [taken, List.filter_nil, List.flatMap_nil, List.append_nil]
  | cons extra steps ih =>
    rw [extendAll, List.foldl_cons, ← extendAll, taken_cons]
    by_cases hall : AllFunctions extra
    · rw [if_pos hall, List.flatMap_cons, ← List.append_assoc, extendOrKeep_of_allFunctions hall]
      exact ih (Keyed.keys_putAll h extra)
    · rw [if_neg hall, extendOrKeep_of_not_allFunctions hall]
      exact ih h

theorem get?_extendAll (hsteps : ∀ extra ∈ steps, (Keyed.keys extra).Nodup) (start : Registry)
    (name : Text) :
    (start.extendAll steps).get? name = (latest? steps name).or (start.get? name) := by
  induction steps generalizing start with
  | nil => rfl
  | cons extra steps ih =>
    obtain ⟨hextra, hrest⟩ := List.forall_mem_cons.mp hsteps
    rw [extendAll, List.foldl_cons, ← extendAll, ih hrest, latest?_cons]
    by_cases hall : AllFunctions extra
    · rw [if_pos hall, extendOrKeep_of_allFunctions hall, get?, Keyed.get?_putAll hextra,
        Option.or_assoc]
      rfl
    · rw [if_neg hall, extendOrKeep_of_not_allFunctions hall]

/-- An extension is refused exactly if it holds something that is no function, with the first such
name, and then nothing is taken of it. Through any list of extensions each name comes to stand for
what was taken last under it, and keeps the place at which it was first taken. -/
theorem extendAll_grown (hstart : start.Sound)
    (hsteps : ∀ extra ∈ steps, (Keyed.keys extra).Nodup) :
    (∀ (r : Registry) (extra : Keyed Text Registered),
      ((∃ name, r.extend extra = .error name) ↔ ∃ p ∈ extra, p.2.isFunction = false) ∧
      ∀ name, r.extend extra = .error name →
        (∃ before found after, extra = before ++ (name, found) :: after ∧
          found.isFunction = false ∧ AllFunctions before) ∧
        r.extendOrKeep extra = r) ∧
    Grown start steps (start.extendAll steps) := by
  refine ⟨fun r extra => ⟨exists_extend_error_iff, fun name herror =>
    ⟨extend_eq_error_iff.mp herror, extendOrKeep_of_error herror⟩⟩, ?_⟩
  have hsound := hstart.extendAll steps
  have hget := hsound.lookup_eq_get?
  refine ⟨hsound, ?_, ?_, ?_, ?_, ?_, ?_⟩
  · intro name
    rw [hget, hstart.lookup_eq_get?, get?_extendAll hsteps]
  · exact names_extendAll (Keyed.keys_eq_eraseDups hstart.nodup) steps
  · exact (List.length_map _).symm
  · exact fun name => (hget name).symm
  · intro name
    rw [hget]
    exact isSome_get?_iff
  · exact fun name => isSome_get?_iff

/-- A function that is replaced keeps its place, and nothing is taken of what stands beside a value
that is no function, before it or behind it. -/
theorem extendAll_grown_refused :
    let f : Transform := fun _ _ s => (.value none, s)
    let g : Transform := fun _ args s => (.value args.head?, s)
    let start : Registry := .ofList [("a", .function f), ("b", .function f)]
    let refused : Keyed Text Registered :=
      [("c", .function g), ("a", .constant (.int 1)), ("d", .constant .null), ("b", .function g)]
    let steps := [refused, [("d", .function f), ("a", .function g)], refused]
    start.Sound ∧ (∀ extra ∈ steps, (Keyed.keys extra).Nodup) ∧
      (∃ name, start.extend refused = .error name) ∧
      (start.extendAll steps).names = (["a", "b", "d"] : List Text) ∧
      (start.extendAll steps).lookup (.str "a") = some (.function g) ∧
      (start.extendAll steps).lookup (.str "b") = some (.function f) ∧
      (start.extendAll steps).lookup (.str "c") = none := by
  intro f g start refused steps
  have hstart : start.Sound := ⟨by decide, by decide⟩
  have hsteps : ∀ extra ∈ steps, (Keyed.keys extra).Nodup := by decide
  obtain ⟨hone, hgrown⟩ := extendAll_grown hstart hsteps
  exact ⟨hstart, hsteps, (hone start refused).1.mpr ⟨_, .tail _ (.head _), rfl⟩,
    hgrown.names.trans (by decide), (hgrown.lookup "a").trans rfl, (hgrown.lookup "b").trans rfl,
    (hgrown.lookup "c").trans rfl⟩

end Registry

end Reshape

import Reshape.Proofs.Text.Upper
import Reshape.Transform.Country

/-!
# Laws of country names

A country code is looked up in one form only, which blanks around it and its case do not change
(`Country.normalize_margins`, `Country.normalize_upper`), so they do not change its name either. The
one code that gives itself away is a blank one: nothing is left of it to look up, but unlike the
empty code it is answered, with the empty name (`Country.transform_forms_iff`).
-/

namespace Reshape

namespace Country

/-- Nothing but blanks. -/
def Blank (t : Text) : Prop :=
  ∀ s ∈ t, s.satisfies isBlank = true

instance (t : Text) : Decidable (Blank t) :=
  inferInstanceAs (Decidable (∀ s ∈ t, _))

/-- What a table has under a code. -/
def listed? (table : List (String × String)) (code : Text) : Option Text :=
  ((Text.string? code).bind (List.lookup · table)).map Text.ofString

/-- The code is in neither table. -/
def Unknown (names : List (String × String)) (code : Text) : Prop :=
  listed? names code = none ∧ listed? fallbackNames code = none

variable {names : List (String × String)} {code : Text}

/-! ### The form that is looked up -/

theorem normalize_margins {front back : Text} (hfront : Blank front) (hback : Blank back)
    (code : Text) : normalize (front ++ code ++ back) = normalize code :=
  congrArg upper (trimWhere_margins hfront hback code)

theorem normalize_upper (code : Text) : normalize (upper code) = normalize code := by
  rw [normalize, trim_upper, upper_upper, normalize]

theorem normalize_normalize (code : Text) : normalize (normalize code) = normalize code := by
  have htrim : trim (trim code) = trim code := trimWhere_trimWhere _ code
  rw [normalize, normalize, trim_upper, upper_upper, htrim]

theorem normalize_eq_nil_iff : normalize code = [] ↔ Blank code :=
  upper_eq_nil_iff.trans trimWhere_eq_nil_iff

/-! ### Names -/

theorem nameOf_eq (names : List (String × String)) (code : Text) :
    nameOf names code =
      match (listed? names (normalize code)).filter
        fun name => decide (name ≠ [] ∧ name ≠ normalize code) with
      | some name => name
      | none => (listed? fallbackNames (normalize code)).getD (normalize code) := rfl

theorem nameOf_congr {other : Text} (h : normalize other = normalize code) :
    nameOf names other = nameOf names code := by
  rw [nameOf_eq, nameOf_eq, h]

theorem nameOf_of_unknown (h : Unknown names (normalize code)) :
    nameOf names code = normalize code := by
  rw [nameOf_eq, h.1, h.2]
  rfl

theorem mem_of_listed? {table : List (String × String)} {name : Text}
    (h : listed? table code = some name) : ∃ entry ∈ table, name = Text.ofString entry.2 := by
  obtain ⟨text, htext, rfl⟩ := Option.map_eq_some_iff.mp h
  obtain ⟨key, -, hlookup⟩ := Option.bind_eq_some_iff.mp htext
  obtain ⟨before, after, heq, -⟩ := List.lookup_eq_some_iff.mp hlookup
  exact ⟨(key, text), heq ▸ List.mem_append_right _ List.mem_cons_self, rfl⟩

theorem listed?_nil {table : List (String × String)} (h : "" ∉ table.map Prod.fst) :
    listed? table [] = none := by
  have hlookup : table.lookup "" = none :=
    List.lookup_eq_none_iff.mpr fun entry hentry => by
      simpa using fun heq : entry.1 = "" => h (List.mem_map.mpr ⟨entry, hentry, heq⟩)
  show (table.lookup "").map Text.ofString = none
  rw [hlookup, Option.map_none]

/-- Only a blank code has an empty name, because names in the table that are empty do not count. -/
theorem nameOf_eq_nil_iff (hnames : "" ∉ names.map Prod.fst) :
    nameOf names code = [] ↔ Blank code := by
  rw [← normalize_eq_nil_iff]
  constructor
  · intro h
    rw [nameOf_eq] at h
    split at h
    · next name hname =>
      have hne := (Option.filter_eq_some_iff.mp hname).2
      simp [h] at hne
    · cases hlisted : listed? fallbackNames (normalize code) with
      | none => rwa [hlisted] at h
      | some name =>
        obtain ⟨entry, hentry, rfl⟩ := mem_of_listed? hlisted
        have hall : ∀ entry ∈ fallbackNames, Text.ofString entry.2 ≠ [] := by decide
        rw [hlisted] at h
        exact absurd h (hall entry hentry)
  · intro h
    have hfallback : listed? fallbackNames [] = none := listed?_nil (by decide)
    rw [nameOf_eq, h, listed?_nil hnames, hfallback]
    rfl

/-! ### Answers -/

section

variable (names) (room : Nat) (s : Store)

theorem transform_nil : transform names room [.scalar (.str [])] s = (.value none, s) := rfl

variable {names room s}

theorem transform_of_ne_nil (h : code ≠ []) :
    transform names room [.scalar (.str code)] s =
      (.value (some (.scalar (.str (nameOf names code)))), s) := by
  have hcode : ofCode names room s (.scalar (.str code)) = .ok (some (nameOf names code)) := by
    rw [ofCode, if_neg h]
  unfold transform
  dsimp only
  rw [hcode]
  rfl

theorem transform_congr {other : Text} (hnil : other = [] ↔ code = [])
    (h : normalize other = normalize code) :
    transform names room [.scalar (.str other)] s =
      transform names room [.scalar (.str code)] s := by
  by_cases hcode : code = []
  · rw [hcode, hnil.mpr hcode]
  · rw [transform_of_ne_nil hcode, transform_of_ne_nil (mt hnil.mp hcode), nameOf_congr h]

/-- Blanks around a code show only if there is nothing else. -/
theorem transform_margins_iff {front back : Text} (hfront : Blank front) (hback : Blank back) :
    transform names room [.scalar (.str (front ++ code ++ back))] s =
        transform names room [.scalar (.str code)] s ↔
      (code = [] → front ++ back = []) := by
  constructor
  · rintro h rfl
    rw [List.append_nil, transform_nil] at h
    by_contra hne
    rw [transform_of_ne_nil hne] at h
    cases h
  · intro h
    refine transform_congr ⟨fun hnil => ?_, fun hnil => ?_⟩ (normalize_margins hfront hback code)
    · exact (List.append_eq_nil_iff.mp (List.append_eq_nil_iff.mp hnil).1).2
    · rw [hnil, List.append_nil]
      exact h hnil

theorem transform_upper (code : Text) :
    transform names room [.scalar (.str (upper code))] s =
      transform names room [.scalar (.str code)] s :=
  transform_congr upper_eq_nil_iff (normalize_upper code)

theorem transform_ne_empty_iff (hnames : "" ∉ names.map Prod.fst) :
    (transform names room [.scalar (.str code)] s).1 ≠ .value (some (.scalar (.str []))) ↔
      (Blank code → code = []) := by
  by_cases hcode : code = []
  · rw [hcode, transform_nil]
    exact iff_of_true nofun fun _ => rfl
  · rw [transform_of_ne_nil hcode, ← nameOf_eq_nil_iff hnames]
    simp [hcode]

/-- A code that is in no table is answered in the form that is looked up. -/
theorem transform_unknown_iff (h : Unknown names (normalize code)) :
    (∃ c, transform names room [.scalar (.str code)] s = (.value (some c), s) ∧
        transform names room [c] s = (.value (some c), s)) ↔
      ¬ Blank code := by
  constructor
  · rintro ⟨v, hv, hself⟩ hblank
    have hcode : code ≠ [] := by
      rintro rfl
      cases hv
    rw [transform_of_ne_nil hcode, nameOf_of_unknown h, normalize_eq_nil_iff.mpr hblank] at hv
    cases hv
    cases hself
  · intro hblank
    have hcode : code ≠ [] := by
      rintro rfl
      exact hblank nofun
    have hform : normalize code ≠ [] := mt normalize_eq_nil_iff.mp hblank
    have hagain : Unknown names (normalize (normalize code)) := by rwa [normalize_normalize]
    refine ⟨.scalar (.str (normalize code)), ?_, ?_⟩
    · rw [transform_of_ne_nil hcode, nameOf_of_unknown h]
    · rw [transform_of_ne_nil hform, nameOf_of_unknown hagain, normalize_normalize]

/-- Blanks around a code and its case do not show in the answer, except that blanks alone, which are
what can stand around the empty code, are answered with the empty name. A code that is in no table
is answered in the form that is looked up, which is then its own answer, unless nothing is left of
it. -/
theorem transform_forms_iff (hnames : "" ∉ names.map Prod.fst) (room : Nat) (s : Store) :
    (∀ code front back : Text, Blank front → Blank back →
      (transform names room [.scalar (.str (front ++ code ++ back))] s =
          transform names room [.scalar (.str code)] s ↔
        (code = [] → front ++ back = []))) ∧
    (∀ code, transform names room [.scalar (.str (upper code))] s =
      transform names room [.scalar (.str code)] s) ∧
    (∀ code, (transform names room [.scalar (.str code)] s).1 ≠ .value (some (.scalar (.str []))) ↔
      (Blank code → code = [])) ∧
    ∀ code, Unknown names (normalize code) →
      ((∃ c, transform names room [.scalar (.str code)] s = (.value (some c), s) ∧
          transform names room [c] s = (.value (some c), s)) ↔
        ¬ Blank code) :=
  ⟨fun _ _ _ hfront hback => transform_margins_iff hfront hback, transform_upper,
    fun _ => transform_ne_empty_iff hnames, fun _ hunknown => transform_unknown_iff hunknown⟩

end

/-- A code with blanks of two kinds around it, a letter whose upper case is two letters, and a code
in no table. -/
theorem transform_forms_unknown :
    let front : Text := "\t"
    let back : Text := "\u2003\n"
    let code : Text := "straße"
    let answer (code : Text) := transform territoryNames 100 [.scalar (.str code)] {}
    "" ∉ territoryNames.map Prod.fst ∧ Blank front ∧ Blank back ∧
      answer (front ++ "gb" ++ back) = answer "gb" ∧ answer (upper code) = answer code ∧
      (answer code).1 ≠ .value (some (.scalar (.str []))) ∧
      Unknown territoryNames (normalize code) ∧
      ∃ c, answer code = (.value (some c), {}) ∧
        transform territoryNames 100 [c] {} = (.value (some c), {}) := by
  intro front back code answer
  have hnames : "" ∉ territoryNames.map Prod.fst := by decide +kernel
  have hfront : Blank front := by decide
  have hback : Blank back := by decide
  have hcode : ¬ Blank code := by decide
  have hunknown : Unknown territoryNames (normalize code) := by
    constructor <;> decide +kernel
  obtain ⟨hmargins, hupper, hempty, hself⟩ := transform_forms_iff hnames 100 {}
  exact ⟨hnames, hfront, hback, (hmargins "gb" front back hfront hback).mpr nofun, hupper code,
    (hempty code).mpr fun h => absurd h hcode, hunknown, (hself code hunknown).mpr hcode⟩

/-- The empty code has no answer, but with a blank beside it the empty name, which has no answer
again. -/
theorem transform_blank :
    let blank : Text := " "
    let answer (code : Text) := transform territoryNames 100 [.scalar (.str code)] {}
    "" ∉ territoryNames.map Prod.fst ∧ "" ∉ territoryNames.map Prod.snd ∧ Blank blank ∧
      answer ([] ++ [] ++ blank) ≠ answer [] ∧ Unknown territoryNames (normalize blank) ∧
      answer blank = (.value (some (.scalar (.str []))), {}) ∧ answer [] = (.value none, {}) := by
  intro blank answer
  have hnames : "" ∉ territoryNames.map Prod.fst := by decide +kernel
  have hblank : Blank blank := by decide
  have hunknown : Unknown territoryNames (normalize blank) := by
    constructor <;> decide +kernel
  have hanswer : answer blank = (.value (some (.scalar (.str []))), {}) := by
    have hne : blank ≠ [] := by decide
    exact (transform_of_ne_nil hne).trans (by rw [(nameOf_eq_nil_iff hnames).mpr hblank])
  refine ⟨hnames, by decide +kernel, hblank, ?_, hunknown, hanswer, transform_nil _ _ _⟩
  rw [List.append_nil, List.nil_append, hanswer]
  exact nofun

end Country

end Reshape

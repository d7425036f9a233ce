import Mathlib.Data.Nat.Bitwise
import Reshape.Proofs.Text.Blank
import Reshape.Text.Upper

/-!
# Laws of upper-casing

No character that upper-casing leads to is moved by it again, and no blank is moved or led to
(`Upper.apart`). So what is in upper case stays as it is (`upper_upper`), and a text can be trimmed
before or after (`trim_upper`).

The codes that are compared are many, so a set of codes is kept as the bits of one number
(`Upper.bits`): two sets are apart if the numbers have no bit in common.
-/

namespace Reshape

namespace Upper

/-! ### Sets of codes -/

/-- The number whose bits are at the codes. -/
def bits (codes : List Nat) : Nat :=
  codes.foldr (fun n acc => acc ||| 1 <<< n) 0

theorem testBit_bits_of_mem {codes : List Nat} {n : Nat} (h : n ∈ codes) :
    (bits codes).testBit n = true := by
  induction codes with
  | nil => cases h
  | cons m rest ih =>
    rw [bits, List.foldr_cons, ← bits, Nat.testBit_or]
    rcases List.mem_cons.mp h with rfl | hrest
    · simp [Nat.testBit_shiftLeft]
    · rw [ih hrest, Bool.true_or]

theorem not_mem_of_bits {xs ys : List Nat} (h : bits xs &&& bits ys = 0) {n : Nat} (hx : n ∈ xs) :
    n ∉ ys := by
  intro hy
  have hbit : (bits xs &&& bits ys).testBit n = true := by
    rw [Nat.testBit_and, testBit_bits_of_mem hx, testBit_bits_of_mem hy, Bool.and_true]
  rw [h, Nat.zero_testBit] at hbit
  cases hbit

/-! ### Characters -/

/-- The codes that a run covers. -/
def Run.codes (r : Run) : List Nat :=
  (List.range ((r.last - r.first) / r.step + 1)).map (r.first + r.step * ·)

/-- The codes of the characters that upper-casing moves. -/
def moved : List Nat :=
  runs.flatMap Run.codes ++ expansions.map Prod.fst

/-- The codes of the characters that it moves them to. -/
def reached : List Nat :=
  runs.flatMap (fun r => r.codes.map r.image) ++ expansions.flatMap Prod.snd

/-- The codes of the blanks. -/
def blanks : List Nat :=
  List.range' 0x09 5 ++ List.range' 0x1C 5 ++ List.range' 0x2000 11 ++
    [0x85, 0xA0, 0x1680, 0x2028, 0x2029, 0x202F, 0x205F, 0x3000]

theorem Run.mem_codes {r : Run} {code : Nat} (h : r.covers code = true) : code ∈ r.codes := by
  simp only [covers, decide_eq_true_eq] at h
  obtain ⟨hfirst, hlast, hstep⟩ := h
  refine List.mem_map.mpr ⟨(code - r.first) / r.step, List.mem_range.mpr ?_, ?_⟩
  · exact Nat.lt_succ_of_le (Nat.div_le_div_right (by omega))
  · have hdiv := Nat.mul_div_cancel' (Nat.dvd_of_mod_eq_zero hstep)
    omega

theorem mem_blanks {c : Char} (h : isBlank c = true) : c.toNat ∈ blanks := by
  simp only [isBlank, Bool.or_eq_true, Bool.and_eq_true, decide_eq_true_eq, beq_iff_eq] at h
  simp only [blanks, List.mem_append, List.mem_range'_1, List.mem_cons, List.not_mem_nil, or_false]
  omega

/-- What is moved, what it is moved to and the blanks have no code in common. -/
theorem apart : bits reached &&& bits moved = 0 ∧ bits blanks &&& bits moved = 0 ∧
    bits blanks &&& bits reached = 0 := by decide +kernel

theorem isValidChar_of_mem_reached : ∀ n ∈ reached, n.isValidChar := by decide +kernel

theorem expansions_ne_nil : ∀ e ∈ expansions, e.2 ≠ [] := by decide

variable {c d : Char}

theorem char_of_not_mem_moved (h : c.toNat ∉ moved) : char c = [c] := by
  rw [moved, List.mem_append, not_or] at h
  have hruns : runs.find? (·.covers c.toNat) = none :=
    List.find?_eq_none.mpr fun r hr hcovers =>
      h.1 (List.mem_flatMap.mpr ⟨r, hr, Run.mem_codes hcovers⟩)
  have hexpansions : expansions.lookup c.toNat = none :=
    List.lookup_eq_none_iff.mpr fun e he => by
      simpa using fun heq => h.2 (List.mem_map.mpr ⟨e, he, heq.symm⟩)
  simp only [char, hruns, hexpansions]

/-- A character is left alone, or moved to some that can be reached. -/
theorem char_cases (c : Char) : char c = [c] ∨
    c.toNat ∈ moved ∧ ∃ codes, codes ≠ [] ∧ (∀ n ∈ codes, n ∈ reached) ∧
      char c = codes.map Char.ofNat := by
  cases hruns : runs.find? (·.covers c.toNat) with
  | some r =>
    have hr := List.mem_of_find?_eq_some hruns
    have hcodes := Run.mem_codes (by simpa using List.find?_some hruns)
    refine .inr ⟨?_, [r.image c.toNat], List.cons_ne_nil _ _, ?_, ?_⟩
    · exact List.mem_append_left _ (List.mem_flatMap.mpr ⟨r, hr, hcodes⟩)
    · intro n hn
      rw [List.mem_singleton.mp hn]
      exact List.mem_append_left _ (List.mem_flatMap.mpr ⟨r, hr, List.mem_map_of_mem hcodes⟩)
    · simp only [char, hruns, List.map_singleton]
  | none =>
    cases hexpansions : expansions.lookup c.toNat with
    | none => exact .inl (by simp only [char, hruns, hexpansions])
    | some codes =>
      obtain ⟨before, after, heq, -⟩ := List.lookup_eq_some_iff.mp hexpansions
      have he : (c.toNat, codes) ∈ expansions :=
        heq ▸ List.mem_append_right _ List.mem_cons_self
      refine .inr ⟨?_, codes, expansions_ne_nil _ he, ?_, ?_⟩
      · exact List.mem_append_right _ (List.mem_map.mpr ⟨_, he, rfl⟩)
      · exact fun n hn => List.mem_append_right _ (List.mem_flatMap.mpr ⟨_, he, hn⟩)
      · simp only [char, hruns, hexpansions]

theorem char_ne_nil (c : Char) : char c ≠ [] := by
  rcases char_cases c with h | ⟨-, codes, hne, -, h⟩
  · rw [h]
    exact List.cons_ne_nil _ _
  · rw [h]
    exact fun hnil => hne (List.map_eq_nil_iff.mp hnil)

theorem toNat_mem_reached {codes : List Nat} (hcodes : ∀ n ∈ codes, n ∈ reached)
    (h : d ∈ codes.map Char.ofNat) : d.toNat ∈ reached := by
  obtain ⟨n, hn, rfl⟩ := List.mem_map.mp h
  have hcode : (Char.ofNat n).toNat = n := by
    rw [Char.ofNat, dif_pos (isValidChar_of_mem_reached n (hcodes n hn))]
    rfl
  rw [hcode]
  exact hcodes n hn

/-- A character that is led to stays as it is. -/
theorem char_of_mem_char (h : d ∈ char c) : char d = [d] := by
  rcases char_cases c with hc | ⟨-, codes, -, hcodes, hc⟩
  · rw [hc, List.mem_singleton] at h
    rw [h, hc]
  · rw [hc] at h
    exact char_of_not_mem_moved (not_mem_of_bits apart.1 (toNat_mem_reached hcodes h))

theorem isBlank_of_mem_char (h : d ∈ char c) : isBlank d = isBlank c := by
  rcases char_cases c with hc | ⟨hmoved, codes, -, hcodes, hc⟩
  · rw [hc, List.mem_singleton] at h
    rw [h]
  · rw [hc] at h
    have hfrom : ¬ isBlank c = true := fun hblank =>
      not_mem_of_bits apart.2.1 (mem_blanks hblank) hmoved
    have hto : ¬ isBlank d = true := fun hblank =>
      not_mem_of_bits apart.2.2 (mem_blanks hblank) (toNat_mem_reached hcodes h)
    rw [Bool.eq_false_of_not_eq_true hfrom, Bool.eq_false_of_not_eq_true hto]

/-! ### Symbols -/

theorem symbol_ne_nil (s : Symbol) : symbol s ≠ [] := by
  cases s with
  | char c => simpa [symbol, Text.ofChars] using char_ne_nil c
  | half offset => exact List.cons_ne_nil _ _

variable {s t : Symbol}

/-- What a symbol leads to is led to by a character. -/
theorem mem_symbol (h : t ∈ symbol s) :
    t = s ∧ symbol s = [s] ∨ ∃ c d, s = .char c ∧ t = .char d ∧ d ∈ char c := by
  cases s with
  | char c =>
    obtain ⟨d, hd, rfl⟩ := List.mem_map.mp h
    exact .inr ⟨c, d, rfl, rfl, hd⟩
  | half offset => exact .inl ⟨List.mem_singleton.mp h, rfl⟩

theorem symbol_of_mem_symbol (h : t ∈ symbol s) : symbol t = [t] := by
  rcases mem_symbol h with ⟨rfl, hs⟩ | ⟨c, d, rfl, rfl, hd⟩
  · exact hs
  · rw [symbol, char_of_mem_char hd]
    rfl

theorem isBlank_of_mem_symbol (h : t ∈ symbol s) :
    t.satisfies isBlank = s.satisfies isBlank := by
  rcases mem_symbol h with ⟨rfl, -⟩ | ⟨c, d, rfl, rfl, hd⟩
  · rfl
  · exact isBlank_of_mem_char hd

end Upper

/-! ### Texts -/

theorem upper_eq_self {t : Text} (h : ∀ s ∈ t, Upper.symbol s = [s]) : upper t = t := by
  induction t with
  | nil => rfl
  | cons s rest ih =>
    rw [List.forall_mem_cons] at h
    rw [upper, List.flatMap_cons, h.1, ← upper, ih h.2, List.singleton_append]

/-- What is in upper case stays as it is. -/
theorem upper_upper (t : Text) : upper (upper t) = upper t := by
  refine upper_eq_self fun s hs => ?_
  obtain ⟨_, -, hs⟩ := List.mem_flatMap.mp hs
  exact Upper.symbol_of_mem_symbol hs

theorem upper_eq_nil_iff {t : Text} : upper t = [] ↔ t = [] := by
  cases t with
  | nil => exact iff_of_true rfl rfl
  | cons s rest =>
    refine iff_of_false (fun h => ?_) (List.cons_ne_nil s rest)
    rw [upper, List.flatMap_cons, List.append_eq_nil_iff] at h
    exact Upper.symbol_ne_nil s h.1

/-- Upper-casing neither makes blanks nor takes them away. -/
theorem trim_upper (t : Text) : trim (upper t) = upper (trim t) :=
  trimWhere_flatMap Upper.symbol_ne_nil (fun _ _ => Upper.isBlank_of_mem_symbol) t

/-- A letter that becomes two, and a blank that is not of ASCII. -/
example : trim (upper "\u2003straße ") = "STRASSE" := by decide +kernel

end Reshape

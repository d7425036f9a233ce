import Reshape.Json.NumberToken
import Reshape.Json.Printer
import Reshape.Proofs.Json.Start
import Reshape.Proofs.Number.Numeral
import Reshape.Proofs.Number.Shortest

/-!
# Written numbers read back

`NumberToken.Spells` is the grammar of the numbers that are written. What it spells is taken off
the front of a text as the token it stands for (`NumberToken.take?_of_spells`), so that an integer
and a finite double are read back from what `printInt` and `DoubleStyle.write` make of them.
-/

namespace Reshape.Json

open DoubleStyle (signed)

namespace NumberToken

/-! ### The grammar -/

/-- The fraction with its point, if there is one. -/
def fractionChars : List Char → List Char
  | [] => []
  | digits => '.' :: digits

/-- The exponent with its letter and its sign, if there is one. -/
inductive Power : Option Int → List Char → Prop where
  | absent : Power none []
  | present (negative : Bool) {digits : List Char} (ne_nil : digits ≠ [])
      (all_isDigit : digits.all Char.isDigit = true) :
      Power (some (if negative then -(Nat.ofDigitChars 10 digits 0 : Int)
        else Nat.ofDigitChars 10 digits 0)) ('e' :: (if negative then '-' else '+') :: digits)

/-- The characters of a number, part by part. -/
inductive Spells : NumberToken → List Char → Prop where
  | intro (negative : Bool) {whole fraction power : List Char} {exponent : Option Int}
      (whole_canonical : Numeral.isCanonical whole = true)
      (fraction_digits : fraction.all Char.isDigit = true) (power_spelled : Power exponent power) :
      Spells ⟨negative, whole, fraction, exponent⟩
        (signed negative (whole ++ fractionChars fraction ++ power))

/-- A number that is followed by this text does not go on in it. -/
def EndsBefore (rest : Text) : Prop :=
  ∀ c, rest.head? = some (.char c) → c.isDigit = false ∧ c ≠ '.' ∧ c ≠ 'e' ∧ c ≠ 'E'

/-! ### Taking it apart -/

theorem takeDigits_append {digits : List Char} {rest : Text}
    (hd : digits.all Char.isDigit = true)
    (hr : ∀ c, rest.head? = some (.char c) → c.isDigit = false) :
    takeDigits (Text.ofChars digits ++ rest) = (digits, rest) := by
  induction digits with
  | nil => exact takeDigits_eq_nil hr
  | cons c cs ih =>
    simp only [List.all_cons, Bool.and_eq_true] at hd
    have hcs : takeDigits (Text.ofChars cs ++ rest) = (cs, rest) := ih hd.2
    simp only [Text.ofChars, List.map_cons, List.cons_append] at hcs ⊢
    simp only [takeDigits, hd.1, if_true, hcs]

theorem takeWhole_append {whole : List Char} {rest : Text}
    (hw : Numeral.isCanonical whole = true)
    (hr : ∀ c, rest.head? = some (.char c) → c.isDigit = false) :
    takeWhole (Text.ofChars whole ++ rest) = some (whole, rest) := by
  have hall := Numeral.all_isDigit_of_isCanonical hw
  unfold takeWhole
  rw [takeDigits_append hall hr]
  unfold Numeral.isCanonical at hw
  split at hw
  · cases hw
  · rfl
  · cases hw
  · next c cs _ hne => exact if_neg hne

theorem takeFraction_append {fraction : List Char} {rest : Text}
    (hf : fraction.all Char.isDigit = true)
    (hr : ∀ c, rest.head? = some (.char c) → c.isDigit = false ∧ c ≠ '.') :
    takeFraction (Text.ofChars (fractionChars fraction) ++ rest) = (fraction, rest) := by
  cases fraction with
  | nil =>
    change takeFraction rest = ([], rest)
    unfold takeFraction
    split
    · exact absurd rfl (hr _ rfl).2
    · rfl
  | cons c cs =>
    have hdigits : takeDigits (Text.ofChars (c :: cs) ++ rest) = (c :: cs, rest) :=
      takeDigits_append hf fun c hc => (hr c hc).1
    change takeFraction (.char '.' :: (Text.ofChars (c :: cs) ++ rest)) = _
    simp only [takeFraction, hdigits]

theorem takeExponent_append {exponent : Option Int} {power : List Char} {rest : Text}
    (hp : Power exponent power) (hr : EndsBefore rest) :
    takeExponent (Text.ofChars power ++ rest) = (exponent, rest) := by
  cases hp with
  | absent =>
    change takeExponent rest = (none, rest)
    unfold takeExponent
    split
    · next c _ =>
      obtain ⟨-, -, he, hE⟩ := hr c rfl
      exact if_neg fun h => h.1.elim he hE
    · rfl
  | present negative hne hd =>
    have hdigits := takeDigits_append hd fun c hc => (hr c hc).1
    cases negative
    · change takeExponent (.char 'e' :: .char '+' :: (Text.ofChars _ ++ rest)) = _
      simp [takeExponent, takeExponentSign, hdigits, hne]
    · change takeExponent (.char 'e' :: .char '-' :: (Text.ofChars _ ++ rest)) = _
      simp [takeExponent, takeExponentSign, hdigits, hne]

theorem isDigit_head_power {exponent : Option Int} {power : List Char} {rest : Text}
    (hp : Power exponent power) (hr : EndsBefore rest) (c : Char)
    (hc : (Text.ofChars power ++ rest).head? = some (.char c)) : c.isDigit = false ∧ c ≠ '.' := by
  cases hp with
  | absent => exact ⟨(hr c hc).1, (hr c hc).2.1⟩
  | present =>
    cases hc
    decide

theorem isDigit_head_fraction {rest : Text} (fraction : List Char)
    (hr : ∀ c, rest.head? = some (.char c) → c.isDigit = false) (c : Char)
    (hc : (Text.ofChars (fractionChars fraction) ++ rest).head? = some (.char c)) :
    c.isDigit = false := by
  cases fraction with
  | nil => exact hr c hc
  | cons =>
    cases hc
    decide

theorem head?_ne_of_isCanonical {whole : List Char} {rest : Text} {c : Char}
    (hw : Numeral.isCanonical whole = true) (hc : c.isDigit = false) :
    (Text.ofChars whole ++ rest).head? ≠ some (.char c) := by
  have hall := Numeral.all_isDigit_of_isCanonical hw
  intro h
  cases whole with
  | nil => cases hw
  | cons first =>
    cases h
    simp only [List.all_cons, hc, Bool.false_and] at hall
    cases hall

theorem takeSign_signed {negative : Bool} {cs : List Char} {rest : Text}
    (hcs : (Text.ofChars cs ++ rest).head? ≠ some (.char '-')) :
    takeSign (Text.ofChars (signed negative cs) ++ rest) =
      (negative, Text.ofChars cs ++ rest) := by
  cases negative
  · exact takeSign_eq_self hcs
  · rfl

theorem take?_of_spells {token : NumberToken} {cs : List Char} {rest : Text}
    (h : Spells token cs) (hr : EndsBefore rest) :
    take? (Text.ofChars cs ++ rest) = some (token, rest) := by
  obtain ⟨negative, hw, hf, hp⟩ := h
  next whole fraction power exponent =>
  have hpower := isDigit_head_power hp hr
  have hfraction := isDigit_head_fraction fraction fun c hc => (hpower c hc).1
  have hchars : Text.ofChars (whole ++ fractionChars fraction ++ power) ++ rest =
      Text.ofChars whole ++
        (Text.ofChars (fractionChars fraction) ++ (Text.ofChars power ++ rest)) := by
    simp [Text.ofChars]
  have hsign :
      takeSign (Text.ofChars (signed negative (whole ++ fractionChars fraction ++ power)) ++ rest) =
        (negative, Text.ofChars (whole ++ fractionChars fraction ++ power) ++ rest) :=
    takeSign_signed (hchars ▸ head?_ne_of_isCanonical hw (by decide))
  simp only [take?, hsign, hchars, takeWhole_append hw hfraction, takeFraction_append hf hpower,
    takeExponent_append hp hr, Option.bind_eq_bind, Option.bind_some, Option.pure_def]

/-! ### Values -/

/-- The magnitude that a number has. -/
def amount (token : NumberToken) : ℚ :=
  Nat.ofDigitChars 10 (token.whole ++ token.fraction) 0 *
    (10 : ℚ) ^ (token.exponent.getD 0 - token.fraction.length)

theorem value_of_real {token : NumberToken} (h : token.fraction ≠ [] ∨ token.exponent ≠ none) :
    token.value = .ok (.double (.nearest token.negative token.amount)) := by
  have hreal : ¬ (token.fraction = [] ∧ token.exponent = none) := fun hn => h.elim (· hn.1) (· hn.2)
  simp only [value, if_neg hreal, Double.ofDecimal_eq_nearest, amount]
  rfl

end NumberToken

theorem readNumber_of_spells {token : NumberToken} {cs : List Char} {v : Value} {rest : Text}
    (h : token.Spells cs) (hv : token.value = .ok v) (hr : NumberToken.EndsBefore rest) :
    readNumber (Text.ofChars cs ++ rest) = .ok (v, rest) := by
  simp only [readNumber, NumberToken.take?_of_spells h hr, hv]

/-! ### Integers -/

theorem exists_spells_printInt {n : Int}
    (hn : (Nat.toDigits 10 n.natAbs).length ≤ Numeral.maxDigits) :
    ∃ token : NumberToken, token.Spells (printInt n) ∧ token.value = .ok (.int n) := by
  have hspells (negative : Bool) : NumberToken.Spells ⟨negative, Nat.toDigits 10 n.natAbs, [], none⟩
      (signed negative (Nat.toDigits 10 n.natAbs ++ [] ++ [])) :=
    .intro negative (Numeral.isCanonical_toDigits n.natAbs) rfl .absent
  have hvalue (negative : Bool) :
      NumberToken.value ⟨negative, Nat.toDigits 10 n.natAbs, [], none⟩ =
        .ok (.int (if negative then -n.natAbs else n.natAbs)) := by
    simp [NumberToken.value, Numeral.read_toDigits hn]
  simp only [List.append_nil] at hspells
  cases n with
  | ofNat n => exact ⟨_, hspells false, hvalue false⟩
  | negSucc n => exact ⟨_, hspells true, hvalue true⟩

/-! ### Doubles -/

namespace NumberToken

/-- Below its sign, the numeral of a real number is spelled so, and amounts to this. -/
def SpelledReal (negative : Bool) (cs : List Char) (r : ℚ) : Prop :=
  ∃ token : NumberToken, token.Spells (signed negative cs) ∧ token.negative = negative ∧
    (token.fraction ≠ [] ∨ token.exponent ≠ none) ∧ token.amount = r

theorem spelledReal_point (negative : Bool) {whole fraction : List Char} {r : ℚ}
    (hw : Numeral.isCanonical whole = true) (hf : fraction.all Char.isDigit = true)
    (hne : fraction ≠ [])
    (hr : Nat.ofDigitChars 10 (whole ++ fraction) 0 * (10 : ℚ) ^ (-(fraction.length : Int)) = r) :
    SpelledReal negative (whole ++ '.' :: fraction) r := by
  refine ⟨⟨negative, whole, fraction, none⟩, ?_, rfl, .inl hne, ?_⟩
  · obtain ⟨c, cs, rfl⟩ := List.exists_cons_of_ne_nil hne
    have h := Spells.intro negative hw hf .absent
    rwa [List.append_nil] at h
  · rw [← hr]
    simp [amount]

theorem all_isDigit_zeros (k : Nat) : (List.replicate k '0').all Char.isDigit = true := by
  simp

theorem spelledReal_before (negative : Bool) (digits : Nat) {point : Int}
    (hpoint : point ≤ 0) :
    SpelledReal negative
      ('0' :: '.' :: (List.replicate (-point).toNat '0' ++ Nat.toDigits 10 digits))
      (digits * (10 : ℚ) ^ (point - (Nat.toDigits 10 digits).length)) := by
  have hdigits : Nat.ofDigitChars 10
      (['0'] ++ (List.replicate (-point).toNat '0' ++ Nat.toDigits 10 digits)) 0 = digits := by
    simp [Nat.ofDigitChars_append, Nat.ofDigitChars_cons]
  have he : -((List.replicate (-point).toNat '0' ++ Nat.toDigits 10 digits).length : Int) =
      point - (Nat.toDigits 10 digits).length := by
    rw [List.length_append, List.length_replicate]
    omega
  have hzero : Numeral.isCanonical ['0'] = true := rfl
  refine spelledReal_point negative hzero ?_ ?_ ?_
  · rw [List.all_append, all_isDigit_zeros, Numeral.all_isDigit_toDigits, Bool.true_and]
  · simp
  · rw [hdigits, he]

theorem spelledReal_after (negative : Bool) {digits k : Nat} (hk : digits = 0 → k = 0) :
    SpelledReal negative (Nat.toDigits 10 digits ++ List.replicate k '0' ++ ['.', '0'])
      (digits * (10 : ℚ) ^ k) := by
  have hw : Numeral.isCanonical (Nat.toDigits 10 digits ++ List.replicate k '0') = true := by
    rcases Nat.eq_zero_or_pos digits with h0 | hd
    · subst h0
      rw [hk rfl]
      rfl
    · have hlength : 0 < (Nat.toDigits 10 digits).length := Nat.length_toDigits_pos
      have h := Numeral.isCanonical_take_append hd hlength (all_isDigit_zeros k)
      rwa [List.take_length] at h
  have hdigits :
      Nat.ofDigitChars 10 (Nat.toDigits 10 digits ++ List.replicate k '0' ++ ['0']) 0 =
        10 * (10 ^ k * digits) := by
    simp [Nat.ofDigitChars_append, Nat.ofDigitChars_cons]
  refine spelledReal_point negative hw rfl (List.cons_ne_nil _ _) ?_
  rw [hdigits, List.length_singleton]
  push_cast
  ring

theorem spelledReal_within (negative : Bool) {digits k : Nat} (hk : 0 < k)
    (hlength : k < (Nat.toDigits 10 digits).length) (hd : 0 < digits) :
    SpelledReal negative
      ((Nat.toDigits 10 digits).take k ++ '.' :: (Nat.toDigits 10 digits).drop k)
      (digits * (10 : ℚ) ^ (k - (Nat.toDigits 10 digits).length : Int)) := by
  have hall := Numeral.all_isDigit_toDigits digits
  have he : -(((Nat.toDigits 10 digits).drop k).length : Int) =
      k - (Nat.toDigits 10 digits).length := by
    rw [List.length_drop]
    omega
  refine spelledReal_point negative ?_ ?_ ?_ ?_
  · have hnil : ([] : List Char).all Char.isDigit = true := rfl
    have h := Numeral.isCanonical_take_append hd hk hnil
    rwa [List.append_nil] at h
  · exact List.all_eq_true.mpr fun c hc => List.all_eq_true.mp hall c (List.mem_of_mem_drop hc)
  · rw [ne_eq, List.drop_eq_nil_iff]
    omega
  · rw [List.take_append_drop, Nat.ofDigitChars_ten_toDigits, he]

/-- With a point among or around its digits, a numeral keeps its number. -/
theorem spelledReal_positional (negative : Bool) {digits : Nat} {point : Int}
    (hpoint : digits = 0 → point = 1) :
    SpelledReal negative (DoubleStyle.positional (Nat.toDigits 10 digits) point)
      (digits * (10 : ℚ) ^ (point - (Nat.toDigits 10 digits).length)) := by
  unfold DoubleStyle.positional
  split
  · next hle => exact spelledReal_before negative digits hle
  split
  · next hlen =>
    obtain ⟨k, hk⟩ := Int.eq_ofNat_of_zero_le (Int.sub_nonneg_of_le hlen)
    have hzero : digits = 0 → k = 0 := by
      rintro rfl
      simp [hpoint rfl] at hk
      omega
    rw [hk, Int.toNat_natCast, zpow_natCast]
    exact spelledReal_after negative hzero
  · next hpos hlen =>
    obtain ⟨k, rfl⟩ := Int.eq_ofNat_of_zero_le (Int.le_of_lt (Int.not_le.mp hpos))
    have hd : 0 < digits := by
      refine Nat.pos_of_ne_zero fun h0 => hlen ?_
      simp [h0, hpoint h0]
    exact spelledReal_within negative (by omega) (by omega) hd

theorem power_signed (order : Int) {digits : List Char} (hd : digits.all Char.isDigit = true)
    (hne : digits ≠ []) (hvalue : Nat.ofDigitChars 10 digits 0 = order.natAbs) :
    Power (some order) ('e' :: (if order < 0 then '-' else '+') :: digits) := by
  have h := Power.present (decide (order < 0)) hne hd
  rw [hvalue] at h
  by_cases hneg : order < 0
  · have ho : -(order.natAbs : Int) = order := by omega
    simpa only [hneg, decide_true, if_true, ho] using h
  · have ho : (order.natAbs : Int) = order := by omega
    simpa only [hneg, decide_false, if_false, Bool.false_eq_true, ho] using h

theorem scientific_cons (first : Char) (more : List Char) (order : Int) :
    DoubleStyle.scientific (first :: more) order =
      [first] ++ fractionChars more ++ 'e' :: (if order < 0 then '-' else '+') ::
        (if (Nat.toDigits 10 order.natAbs).length < 2 then '0' :: Nat.toDigits 10 order.natAbs
          else Nat.toDigits 10 order.natAbs) := by
  cases more <;> rfl

theorem spelledReal_scientific (negative : Bool) (digits : Nat) (order : Int) :
    SpelledReal negative (DoubleStyle.scientific (Nat.toDigits 10 digits) order)
      (digits * (10 : ℚ) ^ (order + 1 - (Nat.toDigits 10 digits).length)) := by
  have hdigits : Nat.ofDigitChars 10 (Nat.toDigits 10 digits) 0 = digits :=
    Nat.ofDigitChars_ten_toDigits
  have hall := Numeral.all_isDigit_toDigits digits
  obtain ⟨first, more, hcons⟩ :=
    List.exists_cons_of_ne_nil (Nat.toDigits_ne_nil (n := digits) (b := 10))
  rw [hcons] at hdigits hall ⊢
  rw [List.all_cons, Bool.and_eq_true] at hall
  refine ⟨⟨negative, [first], more, some order⟩, ?_, rfl, .inr (Option.some_ne_none _), ?_⟩
  · have hexponent := Numeral.all_isDigit_toDigits order.natAbs
    rw [scientific_cons]
    refine .intro negative (Numeral.isCanonical_singleton hall.1) hall.2
      (power_signed order ?_ ?_ ?_)
    · split
      · rw [List.all_cons, hexponent]
        rfl
      · exact hexponent
    · split <;> simp
    · split <;> simp [Nat.ofDigitChars_cons]
  · simp only [amount, List.singleton_append, hdigits, Option.getD_some, List.length_cons]
    congr 2
    omega

/-- Wherever its point stands, a decimal is spelled with its value. -/
theorem spelledReal_magnitude (negative : Bool) (style : DoubleStyle) (d : Decimal) :
    SpelledReal negative (style.magnitude d) d.value := by
  set point : Int := if d.digits = 0 then 1 else (Nat.toDigits 10 d.digits).length + d.exponent
    with hdef
  have hvalue : d.digits * (10 : ℚ) ^ (point - (Nat.toDigits 10 d.digits).length) = d.value := by
    rcases Nat.eq_zero_or_pos d.digits with h0 | hd
    · simp [Decimal.value, h0]
    · rw [hdef, if_neg hd.ne', add_sub_cancel_left, Decimal.value]
  have hzero : d.digits = 0 → point = 1 := fun h => if_pos h
  simp only [DoubleStyle.magnitude, ← hdef]
  rw [← hvalue]
  split
  · exact spelledReal_positional negative hzero
  · have h := spelledReal_scientific negative d.digits (point - 1)
    rwa [sub_add_cancel] at h

end NumberToken

theorem exists_spells_write (negative : Bool) {m : Nat} {q : Int} (fits : Fits m q) :
    ∃ token : NumberToken, token.Spells (documentDoubles.write (.finite negative m q fits)) ∧
      token.value = .ok (.double (.finite negative m q fits)) := by
  obtain ⟨token, hspells, hsign, hreal, hamount⟩ :=
    NumberToken.spelledReal_magnitude negative documentDoubles (Double.shortest m q fits)
  have hvalue := NumberToken.value_of_real hreal
  rw [hsign, hamount, Double.nearest_shortest] at hvalue
  exact ⟨token, hspells, hvalue⟩

end Reshape.Json

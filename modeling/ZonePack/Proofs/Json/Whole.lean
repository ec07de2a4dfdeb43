import ZonePack.Json.Record
import ZonePack.Proofs.Binary64
import ZonePack.Proofs.Json.Tokens

/-!
# ZonePack.Proofs.Json.Whole

What whole numbers are read from number literals.  `Literal.value` is the number that a
literal says, exactly, whatever its length; the reader sees what the format keeps of it.

* `Literal.parts_of_lt`, `Literal.parts_near` — what absorbing leaves of the digits: all
  of them, or the first 60 bits.
* `Literal.abs_toRat_sub_value_le` — no literal is evaluated far from its value.
* `Literal.exists_number?_of_isPlain_iff` — plain digits are exact, but at the lower end
  of the range; `Literal.exists_number?_of_short` — so are other literals of 53 bits.
* `whole_run_iff` — a literal is read as the integer that its number is;
  `whole_run_spelled` puts these together, and `exists_whole_run_off` has a literal for
  each way to be read as something else.
-/

namespace ZonePack.Json

/-! ## Numbers -/

/-- The number, exactly. -/
def Number.toRat : Number → ℚ
  | integer n => n
  | real x => x.toRat

/-- A number is taken for the integer that it is. -/
theorem wholeOf_number_iff {x : Number} {n : Int64} :
    wholeOf (.scalar (.number x)) = .ok n ↔ x.toRat = n.toInt := by
  cases x with
  | integer k =>
    rw [Number.toRat, Int.cast_inj, ← int64?_eq_some_iff]
    cases h : int64? k <;> simp [wholeOf, h]
  | real x =>
    rw [Number.toRat, ← Binary64.toInt?_eq_some_iff]
    have hbind : x.toInt?.bind int64? = some n ↔ x.toInt? = some n.toInt := by
      simp [Option.bind_eq_some_iff, int64?_eq_some_iff]
    rw [← hbind]
    cases h : x.toInt?.bind int64? <;> simp [wholeOf, h]

namespace Literal

/-! ## What a literal says -/

/-- The digits of a literal, as one number. -/
def significand (l : Literal) : Nat := Nat.ofDigitChars 10 (l.whole ++ l.fraction.getD []) 0

/-- The exponent of ten of the last digit. -/
def scale (l : Literal) : Int := l.exponentValue - (l.fraction.getD []).length

/-- The number that the literal says, without its sign. -/
def magnitude (l : Literal) : ℚ := l.significand * 10 ^ l.scale

/-- The number that the literal says, exactly. -/
def value (l : Literal) : ℚ := Binary64.signed l.negative l.magnitude

/-- Whether a literal has digits only, and perhaps a sign. -/
def IsPlain (l : Literal) : Prop := l.fraction = none ∧ l.exponent = none

theorem magnitude_nonneg (l : Literal) : 0 ≤ l.magnitude := by
  rw [magnitude]
  positivity

theorem abs_value (l : Literal) : |l.value| = l.magnitude := by
  rw [value, Binary64.abs_signed, abs_of_nonneg l.magnitude_nonneg]

theorem value_eq {l : Literal} {m : Nat} {e : Int} (hm : l.significand = m) (he : l.scale = e) :
    l.value = Binary64.signed l.negative (m * 10 ^ e) := by
  rw [value, magnitude, hm, he]

theorem magnitude_of_isPlain {l : Literal} (h : l.IsPlain) : l.magnitude = l.significand := by
  simp [magnitude, scale, exponentValue, h.1, h.2]

/-! ## Digits -/

/-- A digit is less than ten. -/
theorem digit_le {c : Char} (h : c.isDigit) : c.toNat - '0'.toNat ≤ 9 := by
  have hnine : '9'.toNat = '0'.toNat + 9 := by decide
  rw [Char.isDigit_iff_toNat] at h
  omega

/-- Further digits change a number by less than its last place. -/
theorem ofDigitChars_bounds {ds : List Char} (h : ∀ c ∈ ds, c.isDigit) (m : Nat) :
    m * 10 ^ ds.length ≤ Nat.ofDigitChars 10 ds m ∧
      Nat.ofDigitChars 10 ds m < (m + 1) * 10 ^ ds.length := by
  induction ds generalizing m with
  | nil => simp
  | cons c ds ih =>
    rw [List.forall_mem_cons] at h
    have hdigit := digit_le h.1
    obtain ⟨hlow, hhigh⟩ := ih h.2 (10 * m + (c.toNat - '0'.toNat))
    rw [Nat.ofDigitChars_cons, List.length_cons, Nat.pow_succ', ← Nat.mul_assoc, ← Nat.mul_assoc]
    exact ⟨(Nat.mul_le_mul_right _ (by omega)).trans hlow,
      hhigh.trans_le (Nat.mul_le_mul_right _ (by omega))⟩

theorem absorb_cons_of_lt {m : Nat} {c : Char}
    (h : 10 * m + (c.toNat - '0'.toNat) < significandLimit) (ds : List Char) :
    absorb m (c :: ds) = absorb (10 * m + (c.toNat - '0'.toNat)) ds :=
  if_pos h

theorem absorb_cons_of_le {m : Nat} {c : Char}
    (h : significandLimit ≤ 10 * m + (c.toNat - '0'.toNat)) (ds : List Char) :
    absorb m (c :: ds) = (m, c :: ds) :=
  if_neg (Nat.not_lt.2 h)

theorem absorb_lt (ds : List Char) {m : Nat} (hm : m < significandLimit) :
    (absorb m ds).1 < significandLimit := by
  induction ds generalizing m with
  | nil => exact hm
  | cons c ds ih =>
    obtain hnext | hnext := Nat.lt_or_ge (10 * m + (c.toNat - '0'.toNat)) significandLimit
    · rw [absorb_cons_of_lt hnext]
      exact ih hnext
    · rw [absorb_cons_of_le hnext]
      exact hm

/-- Absorbing takes digits off the front, up to the first that does not fit. -/
theorem absorb_spec {ds : List Char} (h : ∀ c ∈ ds, c.isDigit) (m : Nat) :
    ∃ used, ds = used ++ (absorb m ds).2 ∧ (absorb m ds).1 = Nat.ofDigitChars 10 used m ∧
      ((absorb m ds).2 ≠ [] → significandLimit ≤ 10 * (absorb m ds).1 + 9) := by
  induction ds generalizing m with
  | nil => exact ⟨[], rfl, rfl, fun hne => absurd rfl hne⟩
  | cons c ds ih =>
    rw [List.forall_mem_cons] at h
    obtain hnext | hnext := Nat.lt_or_ge (10 * m + (c.toNat - '0'.toNat)) significandLimit
    · rw [absorb_cons_of_lt hnext]
      obtain ⟨used, hused, hvalue, hfull⟩ := ih h.2 (10 * m + (c.toNat - '0'.toNat))
      refine ⟨c :: used, by rw [List.cons_append, ← hused], ?_, hfull⟩
      rw [Nat.ofDigitChars_cons, hvalue]
    · rw [absorb_cons_of_le hnext]
      have hdigit := digit_le h.1
      exact ⟨[], rfl, rfl, fun _ => by omega⟩

/-- Digits that fit are all absorbed. -/
theorem absorb_of_lt {ds : List Char} (h : ∀ c ∈ ds, c.isDigit) {m : Nat}
    (hm : Nat.ofDigitChars 10 ds m < significandLimit) :
    absorb m ds = (Nat.ofDigitChars 10 ds m, []) := by
  induction ds generalizing m with
  | nil => rfl
  | cons c ds ih =>
    rw [List.forall_mem_cons] at h
    rw [Nat.ofDigitChars_cons] at hm ⊢
    have hnext := (Nat.le_mul_of_pos_right _ (Nat.pow_pos (by decide))).trans
      (ofDigitChars_bounds h.2 (10 * m + (c.toNat - '0'.toNat))).1
    rw [absorb_cons_of_lt (hnext.trans_lt hm), ih h.2 hm]

/-- Numbers that agree in their first 60 bits are near each other. -/
theorem abs_sub_le_of_same_start {b n x y : Nat} (hb : 2 ^ 60 ≤ b)
    (hx : b * n ≤ x ∧ x < (b + 1) * n) (hy : b * n ≤ y ∧ y < (b + 1) * n) :
    |(x : ℚ) - y| ≤ 1 / 2 ^ 60 * y := by
  have hn : (2 : ℚ) ^ 60 * n ≤ y := by exact_mod_cast (Nat.mul_le_mul_right n hb).trans hy.1
  have hdistance : |(x : Int) - y| ≤ n := by
    rw [abs_le]
    constructor <;> linarith
  have hdistance' : |(x : ℚ) - y| ≤ n := by exact_mod_cast hdistance
  linarith

/-- What absorbing leaves of a whole part and a fraction starts with the same digits. -/
theorem abs_absorb_sub_le {w f : List Char} (hw : ∀ c ∈ w, c.isDigit) (hf : ∀ c ∈ f, c.isDigit)
    {m k : Nat} {late dropped : List Char} (hm : absorb 0 w = (m, late))
    (hk : absorb m f = (k, dropped)) :
    |((k * 10 ^ (late.length + dropped.length) : Nat) : ℚ) - Nat.ofDigitChars 10 (w ++ f) 0| ≤
      1 / 2 ^ 60 * Nat.ofDigitChars 10 (w ++ f) 0 := by
  obtain ⟨used, hused, hstart, hfull⟩ := absorb_spec hw 0
  rw [hm] at hused hstart hfull
  obtain ⟨used', hused', hstart', hfull'⟩ := absorb_spec hf m
  rw [hk] at hused' hstart' hfull'
  have hlimit : significandLimit = 2 ^ 64 := rfl
  subst hused hused'
  simp only [List.forall_mem_append] at hw hf
  simp only at hstart hstart' hfull hfull'
  by_cases hlate : late = []
  · subst hlate
    have hvalue : Nat.ofDigitChars 10 (used ++ [] ++ (used' ++ dropped)) 0 =
        Nat.ofDigitChars 10 dropped k := by
      rw [List.append_nil, Nat.ofDigitChars_append, ← hstart, Nat.ofDigitChars_append, ← hstart']
    rw [hvalue, List.length_nil, Nat.zero_add]
    by_cases hdropped : dropped = []
    · subst hdropped
      simp
    · have hk' := hfull' hdropped
      have hpow : 0 < 10 ^ dropped.length := Nat.pow_pos (by decide)
      exact abs_sub_le_of_same_start (by omega)
        ⟨Nat.le_refl _, Nat.mul_lt_mul_of_pos_right (Nat.lt_succ_self k) hpow⟩
        (ofDigitChars_bounds hf.2 k)
  · -- digits of the fraction take the places of the whole digits that did not fit
    have hm' := hfull hlate
    have hrest : ∀ c ∈ late ++ (used' ++ dropped), c.isDigit := by
      simp only [List.forall_mem_append]
      exact ⟨hw.2, hf⟩
    have hvalue : Nat.ofDigitChars 10 (used ++ late ++ (used' ++ dropped)) 0 =
        Nat.ofDigitChars 10 (late ++ (used' ++ dropped)) m := by
      rw [List.append_assoc, Nat.ofDigitChars_append, ← hstart]
    obtain ⟨hlow, hhigh⟩ := ofDigitChars_bounds hf.1 m
    have hpow : 10 ^ (late ++ (used' ++ dropped)).length =
        10 ^ used'.length * 10 ^ (late.length + dropped.length) := by
      rw [← Nat.pow_add, List.length_append, List.length_append]
      congr 1
      omega
    have hpos : 0 < 10 ^ (late.length + dropped.length) := Nat.pow_pos (by decide)
    rw [hvalue]
    refine abs_sub_le_of_same_start (by omega) ?_ (ofDigitChars_bounds hrest m)
    rw [hpow, ← Nat.mul_assoc, ← Nat.mul_assoc, hstart']
    exact ⟨Nat.mul_le_mul_right _ hlow, Nat.mul_lt_mul_of_pos_right hhigh hpos⟩

/-- The digits of a literal are digits. -/
theorem Spelled.isDigit {l : Literal} {s : List Char} (h : l.Spelled s) :
    (∀ c ∈ l.whole, c.isDigit) ∧ ∀ c ∈ l.fraction.getD [], c.isDigit := by
  cases h with
  | mk hwhole _ hf =>
    refine ⟨hwhole.2, ?_⟩
    cases hf with
    | none => exact fun c hc => absurd hc List.not_mem_nil
    | some hdigits => exact hdigits.2

/-- Short literals are evaluated from all of their digits. -/
theorem parts_of_lt {l : Literal} {s : List Char} (h : l.Spelled s)
    (hlt : l.significand < significandLimit) : l.parts = (l.significand, l.scale) := by
  obtain ⟨hwhole, hfraction⟩ := h.isDigit
  rw [significand, Nat.ofDigitChars_append] at hlt
  have hstart := (Nat.le_mul_of_pos_right _ (Nat.pow_pos (by decide))).trans
    (ofDigitChars_bounds hfraction (Nat.ofDigitChars 10 l.whole 0)).1
  rw [parts, absorb_of_lt hwhole (hstart.trans_lt hlt)]
  simp only [absorb_of_lt hfraction hlt]
  rw [significand, Nat.ofDigitChars_append, scale]
  simp

/-- Long literals are evaluated from their first digits. -/
theorem parts_near {l : Literal} {s : List Char} (h : l.Spelled s) :
    l.parts.1 < significandLimit ∧
      |l.parts.1 * 10 ^ l.parts.2 - l.magnitude| ≤ 1 / 2 ^ 60 * l.magnitude := by
  obtain ⟨hwhole, hfraction⟩ := h.isDigit
  obtain ⟨m, late, hm⟩ : ∃ m late, absorb 0 l.whole = (m, late) := ⟨_, _, rfl⟩
  obtain ⟨k, dropped, hk⟩ : ∃ k dropped, absorb m (l.fraction.getD []) = (k, dropped) :=
    ⟨_, _, rfl⟩
  have hnear := abs_absorb_sub_le hwhole hfraction hm hk
  have hparts : l.parts = (k, l.scale + (late.length + dropped.length : Nat)) := by
    obtain ⟨used, hused, -⟩ := absorb_spec hfraction m
    have hlength := congrArg List.length hused
    rw [hk, List.length_append] at hlength
    rw [parts, hm]
    simp only [hk, scale, hlength, Prod.mk.injEq, true_and]
    omega
  have hlt : m < significandLimit := by
    have := absorb_lt l.whole (m := 0) (by decide)
    rwa [hm] at this
  have hlt' := absorb_lt (l.fraction.getD []) hlt
  rw [hk] at hlt'
  refine ⟨by rwa [hparts], ?_⟩
  have hten : (10 : ℚ) ≠ 0 := by norm_num
  have hpow : (0 : ℚ) < 10 ^ l.scale := zpow_pos (by norm_num) _
  rw [hparts, magnitude, significand, zpow_add₀ hten, zpow_natCast, mul_comm (10 ^ l.scale),
    ← mul_assoc, ← mul_assoc, ← sub_mul, abs_mul, abs_of_pos hpow]
  exact_mod_cast mul_le_mul_of_nonneg_right hnear hpow.le

/-! ## Evaluation -/

/-- Whether a literal is evaluated as an integer. -/
def IsExact (l : Literal) : Prop :=
  l.IsPlain ∧
    if l.negative then 0 < l.significand ∧ 2 * l.significand ≤ UInt64.size
    else l.significand < UInt64.size

theorem significand_of_isPlain {l : Literal} (h : l.IsPlain) :
    l.significand = Nat.ofDigitChars 10 l.whole 0 := by
  rw [significand, h.1, Option.getD_none, List.append_nil]

/-- An integer is the number that its literal says. -/
theorem number?_of_isExact {l : Literal} (h : l.IsExact) :
    ∃ x, l.number? = some x ∧ x.toRat = l.value := by
  obtain ⟨hplain, hrange⟩ := h
  refine ⟨.integer (if l.negative then -l.significand else l.significand), ?_, ?_⟩
  · rw [significand_of_isPlain hplain] at hrange ⊢
    exact if_pos ⟨hplain.1, hplain.2, hrange⟩
  · rw [Number.toRat, value, magnitude_of_isPlain hplain, Binary64.signed_natCast]

theorem IsExact.le_value {l : Literal} (h : l.IsExact) : -2 ^ 63 ≤ l.value := by
  obtain ⟨hplain, hrange⟩ := h
  rw [value, magnitude_of_isPlain hplain, Binary64.signed]
  split at hrange
  · rename_i hnegative
    have hle : l.significand ≤ 2 ^ 63 := by
      simp only [UInt64.size] at hrange
      omega
    have hle' : (l.significand : ℚ) ≤ 2 ^ 63 := by exact_mod_cast hle
    rw [if_pos hnegative]
    linarith
  · rename_i hpositive
    have hnonneg : (0 : ℚ) ≤ l.significand := Nat.cast_nonneg _
    rw [if_neg hpositive]
    linarith

theorem number?_of_not_isExact {l : Literal} (h : ¬ l.IsExact) :
    l.number? = (Binary64.ofDecimal? l.negative l.parts.1 l.parts.2).map .real := by
  refine if_neg fun hexact => h ⟨⟨hexact.1, hexact.2.1⟩, ?_⟩
  rw [significand_of_isPlain ⟨hexact.1, hexact.2.1⟩]
  exact hexact.2.2

/-- Every number is near to the one that its literal says. -/
theorem abs_toRat_sub_value_le {l : Literal} {s : List Char} {x : Number} (h : l.Spelled s)
    (hx : l.number? = some x) :
    |x.toRat - l.value| ≤ 7 / 2 ^ 53 * |l.value| + 3 * Binary64.slack := by
  have hslack := Binary64.slack_nonneg
  rw [abs_value]
  by_cases hexact : l.IsExact
  · obtain ⟨y, hy, hvalue⟩ := number?_of_isExact hexact
    rw [hx, Option.some_inj] at hy
    subst hy
    rw [hvalue, sub_self, abs_zero]
    have := l.magnitude_nonneg
    positivity
  · rw [number?_of_not_isExact hexact] at hx
    obtain ⟨y, hy, rfl⟩ := Option.map_eq_some_iff.1 hx
    obtain ⟨hlt, hparts⟩ := parts_near h
    rw [Number.toRat, Binary64.toRat, Binary64.negative_of_ofDecimal? hy, value,
      Binary64.abs_signed_sub_signed]
    exact Binary64.abs_sub_le_of_near (Binary64.abs_ones_ofDecimal_sub_le hlt hy) hparts
      (by norm_num) l.magnitude_nonneg (by norm_num)

/-- A literal of 53 bits is whole exactly if its number is. -/
theorem exists_number?_of_short {l : Literal} {s : List Char} (h : l.Spelled s)
    (hsignificand : l.significand < 2 ^ 53) (hvalue : |l.value| < 2 ^ 53)
    (hscale : -Binary64.maxTenPow ≤ l.scale) :
    ∃ x, l.number? = some x ∧ ∀ n : Int, x.toRat = n ↔ l.value = n := by
  by_cases hexact : l.IsExact
  · obtain ⟨x, hx, hxvalue⟩ := number?_of_isExact hexact
    exact ⟨x, hx, fun n => by rw [hxvalue]⟩
  have hlimit : l.significand < significandLimit := hsignificand.trans (by decide)
  have hunits := Binary64.unitsOfNat_of_le hsignificand.le
  rw [abs_value] at hvalue
  rw [number?_of_not_isExact hexact, parts_of_lt h hlimit]
  unfold Binary64.ofDecimal?
  dsimp only
  rw [hunits]
  cases hs : l.scale with
  | ofNat k =>
    have hmagnitude : l.magnitude = (l.significand * 10 ^ k : Nat) := by
      rw [magnitude, hs]
      simp
    rw [hmagnitude] at hvalue
    have hproduct : l.significand * 10 ^ k < 2 ^ 53 := by exact_mod_cast hvalue
    simp only [Binary64.scaleUp?_of_lt hproduct, Option.map_some, Option.some_inj,
      exists_eq_left']
    intro n
    rw [Number.toRat, Binary64.toRat, Binary64.ones_mul_one, value, hmagnitude]
  | negSucc k =>
    refine ⟨_, rfl, Binary64.signed_eq_iff (Binary64.ones_nonneg _) l.magnitude_nonneg ?_ _⟩
    intro m
    have hk : k + 1 ≤ Binary64.maxTenPow := by omega
    have hpow : ((10 ^ (k + 1) : Nat) : ℚ) ≠ 0 := by positivity
    rw [Binary64.ones_scaleDown_eq_iff hsignificand (Nat.succ_pos k) hk, magnitude, hs,
      zpow_negSucc, ← div_eq_mul_inv]
    push_cast at hpow
    rw [div_eq_iff hpow]
    exact_mod_cast Iff.rfl

/-- A literal with an integer that is beyond 64 bits is out of range. -/
theorem lt_abs_toRat {l : Literal} {s : List Char} {x : Number} (h : l.Spelled s)
    (hx : l.number? = some x) (hlarge : 2 ^ 64 ≤ |l.value|) : 2 ^ 63 < |x.toRat| := by
  have hnear := abs_toRat_sub_value_le h hx
  have hslack : Binary64.slack ≤ 1 := by rw [Binary64.slack]; norm_num
  have hdistance := abs_sub_abs_le_abs_sub l.value x.toRat
  rw [abs_sub_comm] at hdistance
  linarith

/-- Digits that are not evaluated as an integer follow a minus sign, and are zero or too
many for it. -/
theorem negative_of_not_isExact {l : Literal} (hplain : l.IsPlain) (hexact : ¬ l.IsExact)
    (hlt : l.significand < 2 ^ 64) :
    l.negative = true ∧ (l.significand = 0 ∨ 2 ^ 63 < l.significand) := by
  have hnegative : l.negative = true := by
    by_contra hpositive
    exact hexact ⟨hplain, by rwa [if_neg hpositive]⟩
  refine ⟨hnegative, ?_⟩
  by_contra hrange
  refine hexact ⟨hplain, ?_⟩
  rw [if_pos hnegative]
  simp only [UInt64.size]
  omega

/-- Such digits are rounded once. -/
theorem number?_of_isPlain {l : Literal} {s : List Char} (h : l.Spelled s) (hplain : l.IsPlain)
    (hexact : ¬ l.IsExact) (hlt : l.significand < 2 ^ 64) :
    l.number? = some (.real ⟨l.negative, Binary64.unitsOfNat l.significand⟩) := by
  have hscale : l.scale = 0 := by simp [scale, exponentValue, hplain.1, hplain.2]
  rw [number?_of_not_isExact hexact, parts_of_lt h hlt, hscale]
  exact congrArg (Option.map _) (Binary64.ofDecimal?_zero l.negative hlt)

/-- Below the least number of 64 bits, the next 1024 numbers are rounded to it and all
others to something less. -/
theorem exists_number?_of_isPlain {l : Literal} {s : List Char} (h : l.Spelled s)
    (hplain : l.IsPlain) (hvalue : |l.value| < 2 ^ 64) :
    ∃ x, l.number? = some x ∧
      (-2 ^ 63 - 2 ^ 10 ≤ l.value ∧ x.toRat = max l.value (-2 ^ 63) ∨
        l.value < -2 ^ 63 - 2 ^ 10 ∧ x.toRat < -2 ^ 63) := by
  by_cases hexact : l.IsExact
  · obtain ⟨x, hx, hnumber⟩ := number?_of_isExact hexact
    have hle := hexact.le_value
    exact ⟨x, hx, .inl ⟨by linarith, by rw [hnumber, max_eq_left hle]⟩⟩
  rw [abs_value, magnitude_of_isPlain hplain] at hvalue
  have hlt : l.significand < 2 ^ 64 := by exact_mod_cast hvalue
  obtain ⟨hnegative, hrange⟩ := negative_of_not_isExact hplain hexact hlt
  have hsigned : l.value = -l.significand := by
    rw [value, magnitude_of_isPlain hplain, hnegative]
    rfl
  have hreal : (Number.real ⟨true, Binary64.unitsOfNat l.significand⟩).toRat =
      -Binary64.ones (Binary64.unitsOfNat l.significand) := rfl
  refine ⟨_, number?_of_isPlain h hplain hexact hlt, ?_⟩
  rw [hnegative, hsigned, hreal]
  obtain hzero | hlarge := hrange
  · rw [hzero, Binary64.unitsOfNat_of_le (by decide), Binary64.ones_mul_one]
    norm_num
  have hlarge' : (2 : ℚ) ^ 63 < l.significand := by exact_mod_cast hlarge
  obtain hle | hgt := le_or_gt l.significand (2 ^ 63 + 2 ^ 10)
  · left
    have hle' : (l.significand : ℚ) ≤ 2 ^ 63 + 2 ^ 10 := by exact_mod_cast hle
    rw [Binary64.unitsOfNat_eq_of_le hlarge.le hle, Binary64.ones_mul_one,
      max_eq_right (by linarith)]
    exact ⟨by linarith, by norm_num⟩
  · right
    have hgt' : (2 : ℚ) ^ 63 + 2 ^ 10 < l.significand := by exact_mod_cast hgt
    exact ⟨by linarith, neg_lt_neg (Binary64.lt_ones_unitsOfNat hgt hlt)⟩

/-- Digits without a fraction or an exponent are taken for the number that they say,
from the least number of 64 bits up to the largest, and a little further down. -/
theorem exists_number?_of_isPlain_iff {l : Literal} {s : List Char} (h : l.Spelled s)
    (hplain : l.IsPlain) (n : Int64) :
    (∃ x, l.number? = some x ∧ x.toRat = n.toInt) ↔
      -2 ^ 63 - 2 ^ 10 ≤ l.value ∧ l.value < 2 ^ 63 ∧ (n.toInt : ℚ) = max l.value (-2 ^ 63) := by
  have hmin : (-2 ^ 63 : ℚ) ≤ n.toInt := by exact_mod_cast n.le_toInt
  have hmax : (n.toInt : ℚ) < 2 ^ 63 := by exact_mod_cast n.toInt_lt
  obtain hlarge | hsmall := le_or_gt (2 ^ 64) |l.value|
  · refine iff_of_false ?_ ?_
    · rintro ⟨x, hx, hn⟩
      have hbeyond := lt_abs_toRat h hx hlarge
      have hinside : |(n.toInt : ℚ)| ≤ 2 ^ 63 := abs_le.2 ⟨hmin, hmax.le⟩
      rw [hn] at hbeyond
      linarith
    · rintro ⟨hlow, hhigh, -⟩
      obtain hpositive | hnegative := le_abs.1 hlarge <;> linarith
  · obtain ⟨x, hx, hnumber⟩ := exists_number?_of_isPlain h hplain hsmall
    simp only [hx, Option.some_inj, exists_eq_left']
    obtain ⟨hlow, hnumber⟩ | ⟨hbelow, hnumber⟩ := hnumber
    · rw [hnumber]
      constructor
      · intro hn
        have hle := le_max_left l.value (-2 ^ 63)
        exact ⟨hlow, by linarith, hn.symm⟩
      · rintro ⟨-, -, hn⟩
        exact hn.symm
    · refine iff_of_false (fun hn => ?_) fun ⟨hlow, _, _⟩ => ?_ <;> linarith

/-- An integer that a literal is taken for is near to the number that the literal says,
or is zero if that number is next to nothing. -/
theorem abs_sub_value_le_of_toRat {l : Literal} {s : List Char} {x : Number} (h : l.Spelled s)
    (hx : l.number? = some x) {n : Int} (hn : x.toRat = n) :
    |n - l.value| ≤ |l.value| / 2 ^ 50 ∨ n = 0 ∧ |l.value| < 1 / 10 ^ 200 := by
  have hnear := abs_toRat_sub_value_le h hx
  rw [hn] at hnear
  have hvalue := abs_nonneg l.value
  by_cases hzero : n = 0
  · right
    rw [hzero, Int.cast_zero, zero_sub, abs_neg] at hnear
    have hslack : 4 * Binary64.slack < 1 / 10 ^ 200 := by rw [Binary64.slack]; norm_num
    exact ⟨hzero, by linarith⟩
  · left
    have hone : (1 : ℚ) ≤ |(n : ℚ)| := by exact_mod_cast Int.one_le_abs hzero
    have hdistance := abs_sub_abs_le_abs_sub (n : ℚ) l.value
    have hslack : Binary64.slack ≤ 1 / 2 ^ 60 := by rw [Binary64.slack]; norm_num
    linarith

end Literal

/-! ## Reading -/

/-- A literal is read as the number that it stands for. -/
theorem Value.reader_literal {l : Literal} {s rest : List Char} (h : l.Spelled s)
    (hrest : Ends rest) (room : Nat) :
    (reader room).run (s ++ rest) =
      match l.number? with
      | some x => .ok (.scalar (.number x), rest)
      | none => .error (.malformed .numberOutOfRange) := by
  have hstart := start_literal .nil h rest
  rw [List.nil_append] at hstart
  cases hx : l.number? <;> cases room <;>
    simp [reader, Reader.refine, Reader.extend, hstart, Reader.map, number,
      Literal.scan_spelled h hrest, hx]

/-- A literal is taken for the integer that its number is. -/
theorem whole_run_iff {l : Literal} {s rest r : List Char} (h : l.Spelled s)
    (hrest : Ends rest) (room : Nat) (n : Int64) :
    (whole room).run (s ++ rest) = .ok (n, r) ↔
      r = rest ∧ ∃ x, l.number? = some x ∧ x.toRat = n.toInt := by
  have hread := Value.reader_literal h hrest room
  cases hx : l.number? with
  | none => simp [whole, Reader.refine, Reader.extend, hread, hx]
  | some x =>
    simp only [Option.some_inj, exists_eq_left', ← wholeOf_number_iff]
    cases hw : wholeOf (.scalar (.number x)) with
    | error f => simp [whole, Reader.refine, Reader.extend, hread, hx, hw]
    | ok k =>
      simp [whole, Reader.refine, Reader.extend, hread, hx, hw, eq_comm, and_comm]

/-- When a literal is read as a whole number, and as which.  Plain digits are read
exactly down to `-2 ^ 63`, to which the next 1024 numbers are raised.  Other literals are
read exactly if their digits and their number have 53 bits and their last digit a place of
the format; else the number that is read may be off by a part in `2 ^ 50`. -/
theorem whole_run_spelled {l : Literal} {s rest r : List Char} (h : l.Spelled s)
    (hrest : Ends rest) (room : Nat) (n : Int64) :
    (l.IsPlain → ((whole room).run (s ++ rest) = .ok (n, r) ↔
      r = rest ∧ -2 ^ 63 - 2 ^ 10 ≤ l.value ∧ l.value < 2 ^ 63 ∧
        (n.toInt : ℚ) = max l.value (-2 ^ 63))) ∧
    (l.significand < 2 ^ 53 → |l.value| < 2 ^ 53 → -Binary64.maxTenPow ≤ l.scale →
      ((whole room).run (s ++ rest) = .ok (n, r) ↔ r = rest ∧ l.value = n.toInt)) ∧
    ((whole room).run (s ++ rest) = .ok (n, r) →
      |n.toInt - l.value| ≤ |l.value| / 2 ^ 50 ∨ n = 0 ∧ |l.value| < 1 / 10 ^ 200) := by
  simp only [whole_run_iff h hrest]
  refine ⟨fun hplain => ?_, fun hsignificand hvalue hscale => ?_, ?_⟩
  · rw [Literal.exists_number?_of_isPlain_iff h hplain]
  · obtain ⟨x, hx, hwhole⟩ := Literal.exists_number?_of_short h hsignificand hvalue hscale
    simp only [hx, Option.some_inj, exists_eq_left', hwhole]
  · rintro ⟨-, x, hx, hn⟩
    refine (Literal.abs_sub_value_le_of_toRat h hx hn).imp_right fun ⟨hzero, hsmall⟩ => ?_
    exact ⟨Int64.toInt_inj.1 hzero, hsmall⟩

/-- One literal of each kind: next to the least number of 64 bits, of few digits, and of
many. -/
theorem whole_run_spelled_of_each_kind :
    (whole 127).run ("-9223372036854775809".toList ++ [',']) = .ok (Int64.minValue, [',']) ∧
      (whole 127).run ("1.50e1".toList ++ [',']) = .ok (15, [',']) ∧
      |((10 : Int64).toInt - 1000000000000000001 / 10 ^ 17 : ℚ)| ≤
        |(1000000000000000001 / 10 ^ 17 : ℚ)| / 2 ^ 50 := by
  have hrest : Ends [','] := fun c hc => .inr (.inl (Option.some_inj.1 hc).symm)
  refine ⟨?_, ?_, ?_⟩
  · have hl : Literal.Spelled ⟨true, "9223372036854775809".toList, none, none⟩
        "-9223372036854775809".toList := Literal.spelled_of_scan rfl
    have hmin : Int64.minValue.toInt = -2 ^ 63 := by decide
    refine ((whole_run_spelled hl hrest 127 Int64.minValue).1 ⟨rfl, rfl⟩).2 ⟨rfl, ?_⟩
    rw [Literal.value_eq (m := 9223372036854775809) (e := 0) rfl rfl, hmin]
    norm_num [Binary64.signed]
  · have hl : Literal.Spelled ⟨false, "1".toList, some "50".toList, some (false, "1".toList)⟩
        "1.50e1".toList := Literal.spelled_of_scan rfl
    have hvalue : Literal.value ⟨false, "1".toList, some "50".toList, some (false, "1".toList)⟩ =
        15 := by
      rw [Literal.value_eq (m := 150) (e := -1) rfl rfl]
      norm_num [Binary64.signed]
    refine ((whole_run_spelled hl hrest 127 15).2.1 (by decide) ?_ (by decide)).2 ⟨rfl, ?_⟩
    · rw [hvalue]
      norm_num
    · rw [hvalue]
      rfl
  · have hl : Literal.Spelled ⟨false, "10".toList, some "00000000000000001".toList, none⟩
        "10.00000000000000001".toList := Literal.spelled_of_scan rfl
    have hvalue : Literal.value ⟨false, "10".toList, some "00000000000000001".toList, none⟩ =
        1000000000000000001 / 10 ^ 17 := by
      rw [Literal.value_eq (m := 1000000000000000001) (e := -17) rfl rfl]
      norm_num [Binary64.signed]
    have hread : (whole 127).run ("10.00000000000000001".toList ++ [',']) = .ok (10, [',']) :=
      eq_ok_of_toOption (by decide +kernel)
    obtain hnear | ⟨hzero, -⟩ := (whole_run_spelled hl hrest 127 10).2.2 hread
    · rwa [hvalue] at hnear
    · cases hzero

/-- A fraction that the format has no room for is not seen, one that scaling brings in is
taken for one of the literal, and whole numbers are moved to a neighbour or to the least
number of 64 bits. -/
theorem exists_whole_run_off :
    (∃ l : Literal, l.Spelled "10.00000000000000001".toList ∧ (∀ k : Int, l.value ≠ k) ∧
      (whole 127).run "10.00000000000000001".toList = .ok (10, [])) ∧
    (∃ l : Literal, l.Spelled "1000036978955.000000".toList ∧ l.value = 1000036978955 ∧
      ∀ n r, (whole 127).run "1000036978955.000000".toList ≠ .ok (n, r)) ∧
    (∃ l : Literal, l.Spelled "9007199254740993.0".toList ∧ l.value = 9007199254740993 ∧
      (whole 127).run "9007199254740993.0".toList = .ok (9007199254740994, [])) ∧
    ∃ l : Literal, l.Spelled "-9223372036854775809".toList ∧ l.value = -9223372036854775809 ∧
      (whole 127).run "-9223372036854775809".toList = .ok (Int64.minValue, []) := by
  refine ⟨⟨⟨false, "10".toList, some "00000000000000001".toList, none⟩,
      Literal.spelled_of_scan rfl, ?_, eq_ok_of_toOption (by decide +kernel)⟩,
    ⟨⟨false, "1000036978955".toList, some "000000".toList, none⟩,
      Literal.spelled_of_scan rfl, ?_, ?_⟩,
    ⟨⟨false, "9007199254740993".toList, some "0".toList, none⟩,
      Literal.spelled_of_scan rfl, ?_, eq_ok_of_toOption (by decide +kernel)⟩,
    ⟨⟨true, "9223372036854775809".toList, none, none⟩,
      Literal.spelled_of_scan rfl, ?_, eq_ok_of_toOption (by decide +kernel)⟩⟩
  · intro k hk
    rw [Literal.value_eq (m := 1000000000000000001) (e := -17) rfl rfl] at hk
    have hk' : (1000000000000000001 : ℚ) = k * 10 ^ 17 := by
      rw [← hk]
      norm_num [Binary64.signed]
    have hwhole : (1000000000000000001 : Int) = k * 10 ^ 17 := by exact_mod_cast hk'
    omega
  · rw [Literal.value_eq (m := 1000036978955000000) (e := -6) rfl rfl]
    norm_num [Binary64.signed]
  · intro n r h
    have hnone : ((whole 127).run "1000036978955.000000".toList).toOption = none := by
      decide +kernel
    rw [h] at hnone
    cases hnone
  · rw [Literal.value_eq (m := 90071992547409930) (e := -1) rfl rfl]
    norm_num [Binary64.signed]
  · rw [Literal.value_eq (m := 9223372036854775809) (e := 0) rfl rfl]
    norm_num [Binary64.signed]

end ZonePack.Json

import Mathlib.Algebra.Order.Field.Power
import Mathlib.Algebra.Order.Field.Rat
import Mathlib.Data.Nat.Cast.Order.Field
import Mathlib.Tactic.FieldSimp
import Mathlib.Tactic.Linarith
import Mathlib.Tactic.Positivity
import Mathlib.Tactic.Ring
import ZonePack.Binary64

/-!
# ZonePack.Proofs.Binary64

How far the number of the format is from the number that is meant.  Magnitudes count
units, so `ones` scales them to the rationals that they stand for.

* `abs_nearest_sub_le` — rounding moves a magnitude by half a unit or by a part in
  `2 ^ 53` at most; `nearest_of_isExact` — it keeps what the format has.
* `abs_ones_ofDecimal_sub_le` — a decimal number of 64 bits is evaluated with an error
  of a few such parts, and of next to nothing (`slack`) where the format ends.
* `scaleUp?_of_lt`, `ones_scaleDown_eq_iff` — scaling decides exactly whether a number of
  53 bits is whole.
* `unitsOfNat_eq_of_le`, `lt_ones_unitsOfNat` — which naturals are rounded to `2 ^ 63`.
* `toInt?_eq_some_iff` — a number is taken for an integer exactly if it is one.

Every step of an evaluation adds its parts to those of the steps before it
(`abs_sub_le_of_near`).
-/

namespace ZonePack

namespace Binary64

/-! ## Spacings -/

/-- One is a power of two, and a large one. -/
theorem exists_one_eq : ∃ k, 1022 ≤ k ∧ one = 2 ^ k := by
  unfold one
  generalize hk : 1074 = k
  exact ⟨k, by omega, Nat.pow_eq⟩

/-- One is larger than most powers of ten. -/
theorem ten_pow_le_one : 10 ^ 250 ≤ one := by decide +kernel

-- only the lemmas on its size are used, for its digits are too many to compute with
attribute [local irreducible] one

theorem one_pos : 0 < one := by
  obtain ⟨k, -, hone⟩ := exists_one_eq
  rw [hone]
  exact Nat.two_pow_pos k

theorem spacing_pos (u : Nat) : 0 < spacing u := Nat.two_pow_pos _

/-- A magnitude is many spacings, unless it is so small that the spacing is one unit. -/
theorem spacing_mul_le (u : Nat) : spacing u = 1 ∨ spacing u * 2 ^ 52 ≤ u := by
  by_cases hlog : u.log2 ≤ 52
  · left
    rw [spacing, Nat.sub_eq_zero_of_le hlog]
  · right
    have hu : u ≠ 0 := by
      rintro rfl
      exact hlog (by simp)
    calc spacing u * 2 ^ 52 = 2 ^ u.log2 := by
          rw [spacing, Nat.pow_eq, ← Nat.pow_add, Nat.sub_add_cancel (by omega)]
      _ ≤ u := Nat.log2_self_le hu

/-- Whether a magnitude, in units, is one of the format. -/
def IsExact (u : Nat) : Prop := spacing u ∣ u

/-- A magnitude of 53 significant bits is one of the format. -/
theorem isExact_mul_two_pow_of_lt {m : Nat} (hm : m < 2 ^ 53) (j : Nat) :
    IsExact (m * 2 ^ j) := by
  by_cases hzero : m = 0
  · subst hzero
    simp [IsExact]
  have hlog : (m * 2 ^ j).log2 ≤ 52 + j := by
    have hlt : m * 2 ^ j < 2 ^ (53 + j) := by
      rw [Nat.pow_add]
      exact Nat.mul_lt_mul_of_pos_right hm (Nat.two_pow_pos j)
    have hne : m * 2 ^ j ≠ 0 := Nat.mul_ne_zero hzero (Nat.two_pow_pos j).ne'
    have := (Nat.log2_lt hne).2 hlt
    omega
  exact Dvd.dvd.mul_left (Nat.pow_dvd_pow 2 (by omega)) m

/-- So is the power of two next to them. -/
theorem isExact_mul_two_pow {m : Nat} (hm : m ≤ 2 ^ 53) (j : Nat) : IsExact (m * 2 ^ j) := by
  obtain hm | rfl := Nat.lt_or_eq_of_le hm
  · exact isExact_mul_two_pow_of_lt hm j
  · rw [← Nat.pow_add, ← Nat.one_mul (2 ^ (53 + j))]
    exact isExact_mul_two_pow_of_lt (by decide) (53 + j)

/-- A whole number of 53 bits is one of the format. -/
theorem isExact_mul_one {m : Nat} (hm : m ≤ 2 ^ 53) : IsExact (m * one) := by
  obtain ⟨k, -, hone⟩ := exists_one_eq
  rw [hone]
  exact isExact_mul_two_pow hm k

/-! ## Rounding -/

/-- What is one of the format already stays as it is. -/
theorem nearest_of_isExact {num den q : Nat} (hden : 0 < den) (hq : IsExact q)
    (h : num = den * q) : nearest num den = q := by
  obtain ⟨m, hm⟩ := hq
  subst h
  have hdiv : den * q / den = q := Nat.mul_div_cancel_left q hden
  have hcells : den * q = den * spacing q * m := by rw [Nat.mul_assoc, ← hm]
  have hcell : 0 < den * spacing q := Nat.mul_pos hden (spacing_pos q)
  rw [nearest, hdiv]
  simp only [hcells, Nat.mul_mod_right, Nat.mul_zero, hcell, true_or, if_true,
    Nat.mul_div_cancel_left m hcell]
  rw [Nat.mul_comm, ← hm]

/-- Rounding ends in the format. -/
theorem isExact_nearest (num den : Nat) : IsExact (nearest num den) := by
  have hsignificand : num / (den * spacing (num / den)) < 2 ^ 53 := by
    rw [← Nat.div_div_eq_div_mul]
    generalize num / den = q
    rw [Nat.div_lt_iff_lt_mul (spacing_pos q), spacing, Nat.pow_eq, ← Nat.pow_add]
    exact Nat.lt_of_lt_of_le Nat.lt_log2_self (Nat.pow_le_pow_right (by decide) (by omega))
  rw [nearest]
  split
  · exact isExact_mul_two_pow (by omega) _
  · exact isExact_mul_two_pow (by omega) _

/-- Rounding goes to a neighbour no farther than half a spacing away. -/
theorem abs_nearest_sub_le_spacing (num : Nat) {den : Nat} (hden : 0 < den) :
    |(nearest num den : ℚ) - (num : ℚ) / den| ≤ (spacing (num / den) : ℚ) / 2 := by
  have hstep := spacing_pos (num / den)
  rw [nearest]
  generalize spacing (num / den) = step at hstep ⊢
  have hcell : 0 < den * step := Nat.mul_pos hden hstep
  have hsplit := Nat.div_add_mod num (den * step)
  have hrest := Nat.mod_lt num hcell
  -- all is counted in parts of a unit now, so that there is only the quotient to compare with
  have hden' : (0 : ℚ) < den := by exact_mod_cast hden
  have hbound : ∀ r : Nat, 2 * (r * step * den) ≤ 2 * num + den * step →
      2 * num ≤ 2 * (r * step * den) + den * step →
      |((r * step : Nat) : ℚ) - (num : ℚ) / den| ≤ (step : ℚ) / 2 := by
    intro r hle hge
    have hle' : 2 * ((r : ℚ) * step * den) ≤ 2 * num + den * step := by exact_mod_cast hle
    have hge' : 2 * (num : ℚ) ≤ 2 * (r * step * den) + den * step := by exact_mod_cast hge
    have hquotient : (num : ℚ) = num / den * den := by field_simp
    rw [hquotient] at hle' hge'
    push_cast
    rw [abs_le]
    constructor <;> nlinarith
  have hproduct : ∀ r : Nat, r * step * den = den * step * r := fun r => by
    rw [Nat.mul_comm, Nat.mul_comm r, Nat.mul_assoc]
  split
  · refine hbound _ ?_ ?_
    · rw [hproduct]; omega
    · rw [hproduct]; omega
  · refine hbound _ ?_ ?_
    · rw [hproduct, Nat.mul_succ]; omega
    · rw [hproduct, Nat.mul_succ]; omega

/-- Rounding moves a magnitude by half a unit or a part in `2 ^ 53` of it at most. -/
theorem abs_nearest_sub_le (num : Nat) {den : Nat} (hden : 0 < den) :
    |(nearest num den : ℚ) - (num : ℚ) / den| ≤ max (1 / 2) ((num : ℚ) / den / 2 ^ 53) := by
  refine (abs_nearest_sub_le_spacing num hden).trans ?_
  obtain hone | hmany := spacing_mul_le (num / den)
  · rw [hone]
    exact le_max_of_le_left (by norm_num)
  · have hfloor : ((num / den : Nat) : ℚ) ≤ num / den := Nat.cast_div_le
    have hmany' : (spacing (num / den) : ℚ) * 2 ^ 52 ≤ (num / den : Nat) := by exact_mod_cast hmany
    refine le_max_of_le_right ?_
    rw [le_div_iff₀ (by positivity)]
    linarith

/-- What is a unit or more does not vanish. -/
theorem nearest_pos {num den : Nat} (hden : 0 < den) (h : den ≤ num) : 0 < nearest num den := by
  have hbound := abs_nearest_sub_le num hden
  have hden' : (0 : ℚ) < den := by exact_mod_cast hden
  have hquotient : (1 : ℚ) ≤ num / den := by
    rw [le_div_iff₀ hden', one_mul]
    exact_mod_cast h
  rw [Nat.pos_iff_ne_zero]
  intro hzero
  rw [hzero, Nat.cast_zero, zero_sub, abs_neg, abs_of_nonneg (by linarith)] at hbound
  obtain hhalf | hpart := le_max_iff.1 hbound
  · linarith
  · rw [le_div_iff₀ (by positivity)] at hpart
    linarith

theorem nearest_zero {den : Nat} (hden : 0 < den) : nearest 0 den = 0 :=
  nearest_of_isExact hden (Nat.dvd_zero _) rfl

/-! ## Numbers of the format -/

/-- The number that a magnitude is. -/
def ones (u : Nat) : ℚ := u / one

theorem one_cast_pos : (0 : ℚ) < one := by exact_mod_cast one_pos

@[simp] theorem ones_zero : ones 0 = 0 := by rw [ones, Nat.cast_zero, zero_div]

theorem ones_pos {u : Nat} (h : 0 < u) : 0 < ones u :=
  div_pos (by exact_mod_cast h) one_cast_pos

theorem ones_nonneg (u : Nat) : 0 ≤ ones u := div_nonneg (Nat.cast_nonneg u) one_cast_pos.le

@[simp] theorem ones_mul_one (n : Nat) : ones (n * one) = n := by
  rw [ones, Nat.cast_mul, mul_div_assoc, div_self one_cast_pos.ne', mul_one]

theorem ones_mono {u v : Nat} (h : u ≤ v) : ones u ≤ ones v :=
  div_le_div_of_nonneg_right (by exact_mod_cast h) one_cast_pos.le

/-- Distances in ones are distances in units, scaled. -/
theorem abs_mul_one (u : Nat) (x : ℚ) : |ones u - x| * one = |(u : ℚ) - x * one| := by
  have hone := one_cast_pos
  rw [← div_mul_cancel₀ (u : ℚ) hone.ne', ← sub_mul, abs_mul, abs_of_pos hone]
  rfl

/-- An error that is too small to matter. -/
def slack : ℚ := 1 / 10 ^ 250

theorem slack_nonneg : 0 ≤ slack := by
  rw [slack]
  positivity

theorem half_unit_le_slack : 1 / 2 / (one : ℚ) ≤ slack := by
  have h : (10 : ℚ) ^ 250 ≤ one := by
    rw [← Nat.cast_ofNat, ← Nat.cast_pow]
    exact Nat.cast_le.2 ten_pow_le_one
  rw [slack, div_le_div_iff₀ one_cast_pos (by positivity)]
  linarith

/-- Rounding moves a number by a part in `2 ^ 53` of it at most, and by some slack. -/
theorem abs_ones_nearest_sub_le {x : ℚ} {num den : Nat} (hden : 0 < den)
    (hx : (num : ℚ) / den = x * one) : |ones (nearest num den) - x| ≤ 1 / 2 ^ 53 * x + slack := by
  have hone := one_cast_pos
  have hbound := abs_nearest_sub_le num hden
  have hnonneg : 0 ≤ x * one := hx ▸ by positivity
  have hslack := half_unit_le_slack
  rw [div_le_iff₀ hone] at hslack
  rw [hx, ← abs_mul_one] at hbound
  refine le_of_mul_le_mul_right (hbound.trans (max_le ?_ ?_)) hone
  · nlinarith
  · have : 0 ≤ slack * one := by rw [slack]; positivity
    linarith

/-- The number of the format for a natural is near it. -/
theorem abs_ones_unitsOfNat_sub_le (n : Nat) : |ones (unitsOfNat n) - n| ≤ 1 / 2 ^ 53 * n := by
  have hone := one_cast_pos
  by_cases hn : n = 0
  · subst hn
    simp [unitsOfNat, ones, nearest_zero]
  have hbound := abs_nearest_sub_le (n * one) Nat.one_pos
  rw [Nat.cast_one, div_one, max_eq_right, Nat.cast_mul, ← abs_mul_one] at hbound
  · exact le_of_mul_le_mul_right (hbound.trans_eq (by ring)) hone
  · have hlarge : (2 : ℚ) ^ 53 ≤ (n * one : Nat) := by
      rw [← Nat.cast_ofNat, ← Nat.cast_pow]
      refine Nat.cast_le.2 (le_trans ?_ (Nat.le_mul_of_pos_left one (Nat.pos_of_ne_zero hn)))
      exact le_trans (by norm_num) ten_pow_le_one
    rw [le_div_iff₀ (by positivity)]
    linarith

/-- A whole number of 53 bits is kept. -/
theorem unitsOfNat_of_le {n : Nat} (h : n ≤ 2 ^ 53) : unitsOfNat n = n * one :=
  nearest_of_isExact Nat.one_pos (isExact_mul_one h) (Nat.one_mul _).symm

theorem unitsOfNat_pos {n : Nat} (h : 0 < n) : 0 < unitsOfNat n :=
  nearest_pos Nat.one_pos (Nat.mul_pos h one_pos)

/-! ## Powers of ten -/

theorem abs_ones_tenPow_sub_le (k : Nat) : |ones (tenPow k) - 10 ^ k| ≤ 1 / 2 ^ 53 * 10 ^ k := by
  have h := abs_ones_unitsOfNat_sub_le (Nat.pow 10 k)
  rwa [Nat.pow_eq, Nat.cast_pow, Nat.cast_ofNat] at h

/-- The first powers of ten are kept. -/
theorem tenPow_of_le {k : Nat} (h : k ≤ 22) : tenPow k = 10 ^ k * one := by
  have hall : ∀ k < 23, tenPow k = Nat.pow 10 k * one := by decide +kernel
  exact hall k (by omega)

theorem tenPow_pos (k : Nat) : 0 < tenPow k := unitsOfNat_pos (Nat.pow_pos (by decide))

/-- All powers of ten but the first are two or more. -/
theorem two_mul_one_le_tenPow {k : Nat} (h : 0 < k) : 2 * one ≤ tenPow k := by
  have hnear := (abs_le.1 (abs_ones_tenPow_sub_le k)).1
  have hten : (10 : ℚ) ≤ 10 ^ k := le_self_pow₀ (by norm_num) h.ne'
  have htwo : (2 : ℚ) ≤ ones (tenPow k) := by linarith
  rw [ones, le_div_iff₀ one_cast_pos] at htwo
  exact_mod_cast htwo

/-! ## Scaling -/

theorem abs_ones_mul_sub_le (a b : Nat) :
    |ones (nearest (a * b) one) - ones a * ones b| ≤ 1 / 2 ^ 53 * (ones a * ones b) + slack := by
  have hone := one_cast_pos
  refine abs_ones_nearest_sub_le one_pos ?_
  rw [ones, ones, Nat.cast_mul]
  field_simp

theorem abs_ones_div_sub_le (a : Nat) {b : Nat} (hb : 0 < b) :
    |ones (div a b) - ones a * (ones b)⁻¹| ≤ 1 / 2 ^ 53 * (ones a * (ones b)⁻¹) + slack := by
  have hone := one_cast_pos
  have hb' : (0 : ℚ) < b := by exact_mod_cast hb
  refine abs_ones_nearest_sub_le hb ?_
  rw [ones, ones, Nat.cast_mul]
  field_simp

/-- Numbers that are near each other have inverses that are. -/
theorem abs_inv_sub_inv_le {a x y : ℚ} (h : |x - y| ≤ a * y) (ha : 0 ≤ a) (ha' : 2 * a ≤ 1)
    (hy : 0 < y) : |x⁻¹ - y⁻¹| ≤ 2 * a * y⁻¹ := by
  obtain ⟨hle, hge⟩ := abs_le.1 h
  have hpart : 2 * a * y ≤ y := mul_le_of_le_one_left hy.le ha'
  have hx : 0 < x := by linarith
  have hsmall := mul_nonneg ha (mul_nonneg ha hy.le)
  have hlow : (1 - 2 * a) * y⁻¹ ≤ x⁻¹ := by
    rw [← div_eq_mul_inv, div_le_iff₀ hy, ← div_eq_inv_mul, le_div_iff₀ hx]
    nlinarith
  have hhigh : x⁻¹ ≤ (1 + 2 * a) * y⁻¹ := by
    rw [← div_eq_mul_inv, le_div_iff₀ hy, ← div_eq_inv_mul, div_le_iff₀ hx]
    nlinarith
  rw [abs_le]
  constructor <;> linarith

/-- Parts add up. -/
theorem abs_sub_le_of_near {r x y a b c e : ℚ} (h : |r - x| ≤ a * x + e) (k : |x - y| ≤ b * y)
    (ha : 0 ≤ a) (hy : 0 ≤ y) (hc : a * (1 + b) + b ≤ c) : |r - y| ≤ c * y + e := by
  have hx : a * x ≤ a * ((1 + b) * y) :=
    mul_le_mul_of_nonneg_left (by linarith [(abs_le.1 k).2]) ha
  have hparts := mul_le_mul_of_nonneg_right hc hy
  calc |r - y| ≤ |r - x| + |x - y| := abs_sub_le r x y
    _ ≤ a * ((1 + b) * y) + e + b * y := by linarith
    _ ≤ c * y + e := by linarith

/-- Dividing by two or more makes no magnitude larger. -/
theorem div_le_self (a : Nat) {b : Nat} (hb : 2 * one ≤ b) : div a b ≤ a := by
  have hone := one_pos
  have hpos : 0 < b := by omega
  obtain rfl | ha := Nat.eq_zero_or_pos a
  · rw [div, Nat.zero_mul, nearest_zero hpos]
  have hhalf : ((a * one : Nat) : ℚ) / b ≤ a / 2 := by
    rw [div_le_div_iff₀ (by exact_mod_cast hpos) two_pos]
    have : a * one * 2 ≤ a * b := by
      rw [Nat.mul_assoc, Nat.mul_comm one]
      exact Nat.mul_le_mul_left a hb
    exact_mod_cast this
  have hrounded := (abs_le.1 (abs_nearest_sub_le (a * one) hpos)).2
  have ha' : (1 : ℚ) ≤ a := by exact_mod_cast ha
  have hmax : max (1 / 2 : ℚ) (((a * one : Nat) : ℚ) / b / 2 ^ 53) ≤ a / 2 :=
    max_le (by linarith) (by linarith)
  have hle : ((div a b : Nat) : ℚ) ≤ a := by
    rw [div]
    linarith
  exact_mod_cast hle

theorem divMaxTenPow_le (n u : Nat) : divMaxTenPow n u ≤ u := by
  induction n generalizing u with
  | zero => exact Nat.le_refl u
  | succ n ih =>
    rw [divMaxTenPow]
    split
    · exact Nat.zero_le u
    · exact (ih _).trans (div_le_self u (two_mul_one_le_tenPow (by decide)))

/-- One division is enough for a small power of ten. -/
theorem scaleDown_of_le (u : Nat) {k : Nat} (hpos : 0 < k) (hk : k ≤ maxTenPow) :
    scaleDown u k = div u (tenPow k) := by
  have hsteps : (k - 1) / maxTenPow = 0 := Nat.div_eq_of_lt (by omega)
  rw [scaleDown, hsteps, Nat.zero_mul, Nat.sub_zero]
  rfl

/-- A large power of ten leaves no more than the largest one of the format does. -/
theorem scaleDown_le_of_lt (u : Nat) {k : Nat} (hk : maxTenPow < k) :
    scaleDown u k ≤ div u (tenPow maxTenPow) := by
  have hmax : 0 < maxTenPow := by decide
  have hrest : 0 < k - (k - 1) / maxTenPow * maxTenPow := by
    have := Nat.div_mul_le_self (k - 1) maxTenPow
    omega
  obtain ⟨n, hn⟩ : ∃ n, (k - 1) / maxTenPow = n + 1 :=
    Nat.exists_eq_add_one.2 (Nat.div_pos (by omega) hmax)
  rw [scaleDown]
  refine (div_le_self _ (two_mul_one_le_tenPow hrest)).trans ?_
  rw [hn, divMaxTenPow]
  split
  · exact Nat.zero_le _
  · exact divMaxTenPow_le n _

/-- Dividing by a power of the format is near to dividing by the power of ten. -/
theorem abs_ones_div_tenPow_sub_le (u k : Nat) :
    |ones (div u (tenPow k)) - ones u * (10 ^ k)⁻¹| ≤
      4 / 2 ^ 53 * (ones u * (10 ^ k)⁻¹) + slack := by
  have hu := ones_nonneg u
  have hpow := abs_inv_sub_inv_le (abs_ones_tenPow_sub_le k) (by positivity) (by norm_num)
    (by positivity)
  have hscaled : |ones u * (ones (tenPow k))⁻¹ - ones u * (10 ^ k)⁻¹| ≤
      2 * (1 / 2 ^ 53) * (ones u * (10 ^ k)⁻¹) := by
    rw [← mul_sub, abs_mul, abs_of_nonneg hu, mul_left_comm]
    exact mul_le_mul_of_nonneg_left hpow hu
  exact abs_sub_le_of_near (abs_ones_div_sub_le u (tenPow_pos k)) hscaled (by positivity)
    (by positivity) (by norm_num)

/-- What is too small for the format is close to zero. -/
theorem mul_inv_maxTenPow_le {x : ℚ} (hx : x ≤ 2 ^ 65) : x * (10 ^ maxTenPow)⁻¹ ≤ slack := by
  have hsplit : (10 : ℚ) ^ maxTenPow = 10 ^ 250 * 10 ^ 58 := by rw [← pow_add]; rfl
  rw [hsplit, ← div_eq_mul_inv, slack, div_le_div_iff₀ (by positivity) (by positivity), one_mul,
    mul_comm]
  exact mul_le_mul_of_nonneg_left (hx.trans (by norm_num)) (by positivity)

theorem abs_ones_scaleDown_sub_le {u k : Nat} (hu : ones u ≤ 2 ^ 65) (hk : 0 < k) :
    |ones (scaleDown u k) - ones u * (10 ^ k)⁻¹| ≤
      4 / 2 ^ 53 * (ones u * (10 ^ k)⁻¹) + 3 * slack := by
  have hslack := slack_nonneg
  have hu' := ones_nonneg u
  obtain hle | hlt := le_or_gt k maxTenPow
  · rw [scaleDown_of_le u hk hle]
    linarith [abs_ones_div_tenPow_sub_le u k]
  · -- both are between zero and what the largest power of the format leaves
    have hdown := ones_mono (scaleDown_le_of_lt u hlt)
    have hmax := (abs_le.1 (abs_ones_div_tenPow_sub_le u maxTenPow)).2
    have hsmall := mul_inv_maxTenPow_le hu
    have hsmaller : ones u * (10 ^ k)⁻¹ ≤ ones u * (10 ^ maxTenPow)⁻¹ := by
      refine mul_le_mul_of_nonneg_left ?_ hu'
      exact inv_anti₀ (by positivity) (pow_le_pow_right₀ (by norm_num) hlt.le)
    have hpos : 0 ≤ ones u * (10 ^ k)⁻¹ := by positivity
    have hdown' := ones_nonneg (scaleDown u k)
    rw [abs_le]
    constructor <;> linarith

theorem abs_ones_scaleUp_sub_le {u k r : Nat} (h : scaleUp? u k = some r) :
    |ones r - ones u * 10 ^ k| ≤ 3 / 2 ^ 53 * (ones u * 10 ^ k) + slack := by
  have hslack := slack_nonneg
  have hu := ones_nonneg u
  rw [scaleUp?] at h
  split at h
  · rename_i hzero
    cases h
    subst hzero
    simpa [ones] using hslack
  split at h
  · rw [mul?] at h
    split at h
    · cases h
      have hscaled : |ones u * ones (tenPow k) - ones u * 10 ^ k| ≤
          1 / 2 ^ 53 * (ones u * 10 ^ k) := by
        rw [← mul_sub, abs_mul, abs_of_nonneg hu, mul_left_comm]
        exact mul_le_mul_of_nonneg_left (abs_ones_tenPow_sub_le k) hu
      exact abs_sub_le_of_near (abs_ones_mul_sub_le u (tenPow k)) hscaled (by positivity)
        (by positivity) (by norm_num)
    · cases h
  · cases h

/-- The sign is kept. -/
theorem negative_of_ofDecimal? {negative : Bool} {significand : Nat} {exponent : Int}
    {x : Binary64} (h : ofDecimal? negative significand exponent = some x) :
    x.negative = negative := by
  cases exponent with
  | ofNat k =>
    obtain ⟨r, -, rfl⟩ := Option.map_eq_some_iff.1 h
    rfl
  | negSucc k =>
    cases h
    rfl

/-- A decimal number of 64 bits is evaluated to a number near it. -/
theorem abs_ones_ofDecimal_sub_le {negative : Bool} {significand : Nat} {exponent : Int}
    {x : Binary64} (hsize : significand < 2 ^ 64)
    (h : ofDecimal? negative significand exponent = some x) :
    |ones x.units - significand * 10 ^ exponent| ≤
      6 / 2 ^ 53 * (significand * 10 ^ exponent) + 3 * slack := by
  have hslack := slack_nonneg
  have hnear := abs_ones_unitsOfNat_sub_le significand
  have hpow : (0 : ℚ) < 10 ^ exponent := by positivity
  have hscaled : |ones (unitsOfNat significand) * 10 ^ exponent - significand * 10 ^ exponent| ≤
      1 / 2 ^ 53 * (significand * 10 ^ exponent) := by
    rw [← sub_mul, abs_mul, abs_of_pos hpow, ← mul_assoc]
    exact mul_le_mul_of_nonneg_right hnear hpow.le
  have hvalue : 0 ≤ (significand : ℚ) * 10 ^ exponent := by positivity
  unfold ofDecimal? at h
  cases exponent with
  | ofNat k =>
    obtain ⟨r, hr, rfl⟩ := Option.map_eq_some_iff.1 h
    simp only [Int.ofNat_eq_natCast, zpow_natCast] at hscaled hvalue ⊢
    refine (abs_sub_le_of_near (abs_ones_scaleUp_sub_le hr) hscaled (by positivity) hvalue
      (c := 6 / 2 ^ 53) (by norm_num)).trans ?_
    linarith
  | negSucc k =>
    cases h
    have hsize' : (significand : ℚ) < 2 ^ 64 := by exact_mod_cast hsize
    have hlarge : ones (unitsOfNat significand) ≤ 2 ^ 65 := by linarith [(abs_le.1 hnear).2]
    simp only [zpow_negSucc] at hscaled hvalue ⊢
    exact abs_sub_le_of_near (abs_ones_scaleDown_sub_le hlarge (Nat.succ_pos k)) hscaled
      (by positivity) hvalue (by norm_num)

/-! ## Exact evaluation -/

/-- The powers of ten of the format are small against one, in units. -/
theorem tenPow_le_one_mul_one {k : Nat} (hk : k ≤ maxTenPow) : tenPow k ≤ one * one := by
  have hmax : 2 * 10 ^ maxTenPow ≤ one := by decide +kernel
  have hmax' : (2 : ℚ) * 10 ^ maxTenPow ≤ one := by exact_mod_cast hmax
  have hpow : (10 : ℚ) ^ k ≤ 10 ^ maxTenPow := pow_le_pow_right₀ (by norm_num) hk
  have hnear := (abs_le.1 (abs_ones_tenPow_sub_le k)).2
  have hpos : (0 : ℚ) ≤ 10 ^ k := by positivity
  have hle : ones (tenPow k) ≤ one := by linarith
  rw [ones, div_le_iff₀ one_cast_pos] at hle
  exact_mod_cast hle

/-- A whole number does not vanish when it is divided. -/
theorem scaleDown_pos {u k : Nat} (hu : one ≤ u) (hpos : 0 < k) (hk : k ≤ maxTenPow) :
    0 < scaleDown u k := by
  rw [scaleDown_of_le u hpos hk]
  exact nearest_pos (tenPow_pos k)
    ((tenPow_le_one_mul_one hk).trans (Nat.mul_le_mul_right one hu))

/-- Numbers of 53 bits are multiples of the first powers of ten only. -/
theorem le_of_mul_ten_pow_lt {m k : Nat} (hm : 0 < m) (h : m * 10 ^ k < 2 ^ 53) : k ≤ 22 := by
  by_contra hk
  have : 10 ^ 23 ≤ 10 ^ k := Nat.pow_le_pow_right (by decide) (by omega)
  have := Nat.le_mul_of_pos_left (10 ^ k) hm
  omega

/-- A product of 53 bits is exact. -/
theorem scaleUp?_of_lt {m k : Nat} (h : m * 10 ^ k < 2 ^ 53) :
    scaleUp? (m * one) k = some (m * 10 ^ k * one) := by
  obtain rfl | hm := Nat.eq_zero_or_pos m
  · simp [scaleUp?]
  have hone := one_pos
  have hk := le_of_mul_ten_pow_lt hm h
  have hfinite : m * 10 ^ k * one < overflow := by
    have hroom : 2 ^ 53 * one < overflow := by decide +kernel
    exact (Nat.mul_lt_mul_of_pos_right h hone).trans hroom
  have hproduct : nearest (m * one * (10 ^ k * one)) one = m * 10 ^ k * one :=
    nearest_of_isExact hone (isExact_mul_one h.le) (by ring)
  rw [scaleUp?, if_neg (Nat.mul_pos hm hone).ne', if_pos (hk.trans (by decide)), mul?,
    tenPow_of_le hk, hproduct, if_pos hfinite]

theorem scaleDown_zero (k : Nat) : scaleDown 0 k = 0 := by
  rw [scaleDown, Nat.le_zero.1 (divMaxTenPow_le _ 0), div, Nat.zero_mul,
    nearest_zero (tenPow_pos _)]

/-- A quotient of 53 bits that is whole is exact. -/
theorem scaleDown_of_mul_lt {n k : Nat} (hpos : 0 < k) (h : n * 10 ^ k < 2 ^ 53) :
    scaleDown (n * 10 ^ k * one) k = n * one := by
  obtain rfl | hn := Nat.eq_zero_or_pos n
  · rw [Nat.zero_mul, Nat.zero_mul, scaleDown_zero]
  have hk := le_of_mul_ten_pow_lt hn h
  have hn' : n ≤ 2 ^ 53 := (Nat.le_mul_of_pos_right n (Nat.pow_pos (by decide))).trans h.le
  rw [scaleDown_of_le _ hpos (hk.trans (by decide)), div, tenPow_of_le hk]
  exact nearest_of_isExact (Nat.mul_pos (Nat.pow_pos (by decide)) one_pos) (isExact_mul_one hn')
    (by ring)

/-- A quotient by one of the first powers of ten is so near that it is a whole number of
the format only if it is whole. -/
theorem eq_of_ones_scaleDown_of_le {m k n : Nat} (hm : m < 2 ^ 53) (hpos : 0 < k) (hk : k ≤ 22)
    (h : ones (scaleDown (m * one) k) = n) : m = n * 10 ^ k := by
  have hm' : (m : ℚ) + 1 ≤ 2 ^ 53 := by exact_mod_cast hm
  have hpow : (0 : ℚ) < 10 ^ k := by positivity
  have hnear := abs_ones_div_sub_le (m * one) (tenPow_pos k)
  rw [← scaleDown_of_le _ hpos (hk.trans (by decide)), h, tenPow_of_le hk, ones_mul_one,
    ones_mul_one, Nat.cast_pow, Nat.cast_ofNat] at hnear
  have hslack : slack * 10 ^ k ≤ 1 / 2 ^ 54 := by
    refine (mul_le_mul_of_nonneg_left (pow_le_pow_right₀ (by norm_num) hk) slack_nonneg).trans ?_
    rw [slack]
    norm_num
  have hdistance : |(n * 10 ^ k - m : ℚ)| < 1 := by
    have hscaled := mul_le_mul_of_nonneg_right hnear hpow.le
    rw [← abs_of_pos hpow, ← abs_mul, abs_of_pos hpow, sub_mul, add_mul, mul_assoc (1 / 2 ^ 53),
      inv_mul_cancel_right₀ hpow.ne'] at hscaled
    linarith
  have hdistance' : |((n * 10 ^ k : Nat) : Int) - m| < 1 := by exact_mod_cast hdistance
  rw [abs_lt] at hdistance'
  omega

/-- A quotient by a later power of ten is less than one. -/
theorem ones_scaleDown_lt_one {m k : Nat} (hm : m < 2 ^ 53) (hk : 22 < k) :
    ones (scaleDown (m * one) k) < 1 := by
  have hm' : (m : ℚ) + 1 ≤ 2 ^ 53 := by exact_mod_cast hm
  have hnear := abs_ones_scaleDown_sub_le (u := m * one) (by rw [ones_mul_one]; linarith)
    (Nat.zero_lt_of_lt hk)
  rw [ones_mul_one] at hnear
  have hsmall : (m : ℚ) * (10 ^ k)⁻¹ ≤ 1 / 10 := by
    rw [← div_eq_mul_inv, div_le_div_iff₀ (by positivity) (by norm_num), one_mul]
    have : (10 : ℚ) ^ 23 ≤ 10 ^ k := pow_le_pow_right₀ (by norm_num) hk
    linarith
  have hslack : slack ≤ 1 / 10 := by rw [slack]; norm_num
  linarith [(abs_le.1 hnear).2]

/-- So a quotient of 53 bits is a whole number of the format only if it is whole. -/
theorem ones_scaleDown_eq_iff {m k n : Nat} (hm : m < 2 ^ 53) (hpos : 0 < k)
    (hk : k ≤ maxTenPow) : ones (scaleDown (m * one) k) = n ↔ m = n * 10 ^ k := by
  constructor
  · intro h
    obtain hle | hlt := le_or_gt k 22
    · exact eq_of_ones_scaleDown_of_le hm hpos hle h
    obtain rfl | hm' := Nat.eq_zero_or_pos m
    · rw [Nat.zero_mul, scaleDown_zero, ones_zero, eq_comm, Nat.cast_eq_zero] at h
      rw [h, Nat.zero_mul]
    · -- no whole number is between zero and one
      have hlt_one := ones_scaleDown_lt_one hm hlt
      have hpos_ones := ones_pos (scaleDown_pos (Nat.le_mul_of_pos_left one hm') hpos hk)
      rw [h] at hlt_one hpos_ones
      have : n < 1 := by exact_mod_cast hlt_one
      have : 0 < n := by exact_mod_cast hpos_ones
      omega
  · rintro rfl
    rw [scaleDown_of_mul_lt hpos hm, ones_mul_one]

/-! ## The least number of 64 bits -/

/-- The numbers of the format between `2 ^ 63` and `2 ^ 64` are the multiples of `2 ^ 11`. -/
theorem spacing_mul_one {n : Nat} (hlow : 2 ^ 63 ≤ n) (hhigh : n < 2 ^ 64) :
    spacing (n * one) = 2 ^ 11 * one := by
  obtain ⟨k, -, hone⟩ := exists_one_eq
  have hlog : (n * one).log2 = 63 + k := by
    rw [Nat.log2_eq_iff (Nat.mul_pos (by omega) one_pos).ne', hone, pow_succ, pow_add]
    constructor
    · exact Nat.mul_le_mul_right _ hlow
    · have := Nat.mul_lt_mul_of_pos_right hhigh (Nat.two_pow_pos k)
      linarith
  rw [spacing, hlog, hone, ← pow_add, Nat.pow_eq]
  congr 1
  omega

theorem unitsOfNat_of_le_of_lt {n : Nat} (hlow : 2 ^ 63 ≤ n) (hhigh : n < 2 ^ 64) :
    unitsOfNat n = if n % 2 ^ 11 < 2 ^ 10 ∨ n % 2 ^ 11 = 2 ^ 10 ∧ n / 2 ^ 11 % 2 = 0 then
      n / 2 ^ 11 * 2 ^ 11 * one else (n / 2 ^ 11 + 1) * 2 ^ 11 * one := by
  have hone := one_pos
  have hless (r : Nat) : 2 * (r * one) < 2 ^ 11 * one ↔ r < 2 ^ 10 := by
    rw [← Nat.mul_assoc, Nat.mul_lt_mul_right hone]
    omega
  have hsame (r : Nat) : 2 * (r * one) = 2 ^ 11 * one ↔ r = 2 ^ 10 := by
    rw [← Nat.mul_assoc, Nat.mul_left_inj hone.ne']
    omega
  rw [unitsOfNat, nearest, Nat.div_one, spacing_mul_one hlow hhigh]
  simp only [Nat.one_mul, Nat.mul_div_mul_right _ _ hone, Nat.mul_mod_mul_right, hless, hsame,
    Nat.mul_assoc]

/-- Naturals up to `2 ^ 63 + 1024` are rounded to `2 ^ 63`. -/
theorem unitsOfNat_eq_of_le {n : Nat} (hlow : 2 ^ 63 ≤ n) (hhigh : n ≤ 2 ^ 63 + 2 ^ 10) :
    unitsOfNat n = 2 ^ 63 * one := by
  have hquotient : n / 2 ^ 11 = 2 ^ 52 := by omega
  have hrest : n % 2 ^ 11 < 2 ^ 10 ∨ n % 2 ^ 11 = 2 ^ 10 := by omega
  rw [unitsOfNat_of_le_of_lt hlow (by omega), hquotient, if_pos]
  · norm_num
  · exact hrest.imp_right fun h => ⟨h, by decide⟩

/-- Naturals after that are not. -/
theorem lt_ones_unitsOfNat {n : Nat} (hlow : 2 ^ 63 + 2 ^ 10 < n) (hhigh : n < 2 ^ 64) :
    2 ^ 63 < ones (unitsOfNat n) := by
  have hunits : 2 ^ 63 * one < unitsOfNat n := by
    rw [unitsOfNat_of_le_of_lt (by omega) hhigh]
    split <;> exact Nat.mul_lt_mul_of_pos_right (by omega) one_pos
  rw [ones, lt_div_iff₀ one_cast_pos]
  exact_mod_cast hunits

/-- A natural of 64 bits is rounded once. -/
theorem ofDecimal?_zero (negative : Bool) {n : Nat} (h : n < 2 ^ 64) :
    ofDecimal? negative n 0 = some ⟨negative, unitsOfNat n⟩ := by
  have hone := one_pos
  have hfinite : unitsOfNat n < overflow := by
    have hroom : 2 ^ 65 * one < overflow := by decide +kernel
    have hnear := (abs_le.1 (abs_ones_unitsOfNat_sub_le n)).2
    have h' : (n : ℚ) < 2 ^ 64 := by exact_mod_cast h
    have hle : ones (unitsOfNat n) ≤ 2 ^ 65 := by linarith
    rw [ones, div_le_iff₀ one_cast_pos] at hle
    have hle' : unitsOfNat n ≤ 2 ^ 65 * one := by exact_mod_cast hle
    exact hle'.trans_lt hroom
  have hproduct : nearest (unitsOfNat n * tenPow 0) one = unitsOfNat n := by
    rw [tenPow_of_le (by decide), Nat.pow_zero, Nat.one_mul]
    exact nearest_of_isExact hone (isExact_nearest _ _) (Nat.mul_comm _ _)
  have hscale : scaleUp? (unitsOfNat n) 0 = some (unitsOfNat n) := by
    rw [scaleUp?]
    split
    · rename_i hzero
      rw [hzero]
    · rw [if_pos (Nat.zero_le _), mul?, hproduct, if_pos hfinite]
  exact congrArg (Option.map _) hscale

/-! ## Numbers with a sign -/

/-- A magnitude with its sign. -/
def signed (negative : Bool) (x : ℚ) : ℚ := if negative then -x else x

theorem abs_signed (negative : Bool) (x : ℚ) : |signed negative x| = |x| := by
  cases negative
  · rfl
  · exact abs_neg x

theorem abs_signed_sub_signed (negative : Bool) (x y : ℚ) :
    |signed negative x - signed negative y| = |x - y| := by
  cases negative
  · rfl
  · exact (neg_sub_neg x y).symm ▸ abs_sub_comm y x

theorem signed_natCast (negative : Bool) (m : Nat) :
    signed negative m = (if negative then -(m : Int) else m : Int) := by
  cases negative <;> simp [signed]

/-- Magnitudes that agree on which natural they are also do with a sign. -/
theorem signed_eq_iff {x y : ℚ} (hx : 0 ≤ x) (hy : 0 ≤ y) (h : ∀ m : Nat, x = m ↔ y = m)
    (negative : Bool) (n : Int) : signed negative x = n ↔ signed negative y = n := by
  have hall (k : Int) : x = k ↔ y = k := by
    obtain ⟨m, rfl | rfl⟩ := k.eq_nat_or_neg
    · exact_mod_cast h m
    · obtain rfl | hm := Nat.eq_zero_or_pos m
      · exact_mod_cast h 0
      · have hneg : ((-(m : Int) : Int) : ℚ) < 0 := by exact_mod_cast (by omega : -(m : Int) < 0)
        exact iff_of_false (by linarith) (by linarith)
  cases negative
  · exact hall n
  · have := hall (-n)
    rw [Int.cast_neg] at this
    simp only [signed, if_true]
    rwa [neg_eq_iff_eq_neg, neg_eq_iff_eq_neg]

/-- The number, exactly. -/
def toRat (x : Binary64) : ℚ := signed x.negative (ones x.units)

theorem abs_toRat (x : Binary64) : |x.toRat| = ones x.units := by
  rw [toRat, abs_signed, abs_of_nonneg (ones_nonneg _)]

theorem toRat_mul_one (negative : Bool) (m : Nat) :
    toRat ⟨negative, m * one⟩ = (if negative then -(m : Int) else m : Int) := by
  rw [toRat, ones_mul_one, signed_natCast]

/-- The integer of some magnitude. -/
theorem toInt?_mul_one (negative : Bool) (m : Nat) :
    toInt? ⟨negative, m * one⟩ = some (if negative then -(m : Int) else m) := by
  have hone : (one : Int) ≠ 0 := by exact_mod_cast one_pos.ne'
  rw [toInt?, if_pos (Nat.mul_mod_left m one), Nat.cast_mul, Int.mul_ediv_cancel _ hone]

/-- A number is taken for an integer if it is one, and for this one. -/
theorem toInt?_eq_some_iff {x : Binary64} {n : Int} : x.toInt? = some n ↔ x.toRat = n := by
  by_cases hwhole : x.units % one = 0
  · obtain ⟨m, hm⟩ := Nat.dvd_of_mod_eq_zero hwhole
    have hx : x = ⟨x.negative, m * one⟩ := by rw [Nat.mul_comm, ← hm]
    rw [hx, toInt?_mul_one, toRat_mul_one, Option.some_inj, Int.cast_inj]
  · have hnone : x.toInt? = none := if_neg hwhole
    rw [hnone]
    refine iff_of_false nofun fun h => hwhole ?_
    have habs := abs_toRat x
    rw [h, ← Int.cast_abs, Int.abs_eq_natAbs, Int.cast_natCast, ones,
      eq_div_iff one_cast_pos.ne'] at habs
    have hunits : n.natAbs * one = x.units := by exact_mod_cast habs
    rw [← hunits, Nat.mul_mod_left]

end Binary64

end ZonePack

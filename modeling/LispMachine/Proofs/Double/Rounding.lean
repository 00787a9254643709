import Mathlib.Algebra.Order.Field.Power
import Mathlib.Algebra.Order.Field.Rat
import Mathlib.Tactic.FieldSimp
import Mathlib.Tactic.Linarith
import Mathlib.Tactic.Positivity
import Mathlib.Tactic.Ring
import LispMachine.Double.Decode
/-!
# Rounding to the nearest double

A finite double has one pair of mantissa and exponent (`Parts.Proper`), and the rationals that round to it
form an interval around its value, ends included when the mantissa is even (`Parts.Attracts`).
`nearestBits` answers with the bits of the double whose interval the fraction lies in
(`nearestBits_eq_bits`): the exponent it chooses is the one at which the fraction has 53 binary digits
(`ScaledAt`), and there the whole number it chooses is the nearest one (`RoundsTo`).
-/
namespace LispMachine.Double

variable {num den m : Nat} {y : ℚ} {q : Int}

/-! ## Whole numbers -/

/-- A rational is rounded to a whole number: it is at most one half away, and less than that if the whole
number is odd. -/
structure RoundsTo (y : ℚ) (m : Nat) : Prop where
  low : (m : ℚ) - 1 / 2 ≤ y
  high : y ≤ m + 1 / 2
  odd : m % 2 = 1 → (m : ℚ) - 1 / 2 < y ∧ y < m + 1 / 2

theorem roundDiv_eq (hd : 0 < den) (h : RoundsTo (num / den) m) : roundDiv num den = m := by
  have hd' : (0 : ℚ) < den := by exact_mod_cast hd
  have hlt := Nat.mod_lt num hd
  have hy : (num : ℚ) = den * (num / den : Nat) + (num % den : Nat) := by
    exact_mod_cast (Nat.div_add_mod num den).symm
  -- the bounds without fractions
  have hlow : (2 * m : ℚ) * den - den ≤ 2 * num := by
    have := h.low
    rw [le_div_iff₀ hd'] at this
    linarith
  have hhigh : (2 * num : ℚ) ≤ 2 * m * den + den := by
    have := h.high
    rw [div_le_iff₀ hd'] at this
    linarith
  have hodd : m % 2 = 1 → (2 * m : ℚ) * den - den < 2 * num ∧ (2 * num : ℚ) < 2 * m * den + den := by
    intro hm
    obtain ⟨h1, h2⟩ := h.odd hm
    rw [lt_div_iff₀ hd'] at h1
    rw [div_lt_iff₀ hd'] at h2
    constructor <;> linarith
  unfold roundDiv
  generalize num / den = w at *
  generalize num % den = r at *
  rw [hy] at hlow hhigh hodd
  have hr : (r : ℚ) < den := by exact_mod_cast hlt
  have hr0 : (0 : ℚ) ≤ r := by positivity
  have hw : w = m ∨ w + 1 = m := by
    have h1 : w < m + 1 := by
      by_contra hc
      have hm : (m : ℚ) + 1 ≤ w := by exact_mod_cast (by omega : m + 1 ≤ w)
      have : ((m : ℚ) + 1) * den ≤ w * den := by gcongr
      linarith
    have h2 : m < w + 2 := by
      by_contra hc
      have hm : (w : ℚ) + 2 ≤ m := by exact_mod_cast (by omega : w + 2 ≤ m)
      have : ((w : ℚ) + 2) * den ≤ m * den := by gcongr
      linarith
    omega
  rcases hw with rfl | rfl
  · have h3 : 2 * r ≤ den := by exact_mod_cast (by linarith : (2 * r : ℚ) ≤ den)
    have h4 : 2 * r = den → w % 2 = 0 := by
      intro he
      by_contra hc
      have := (hodd (by omega)).2
      have : (2 * r : ℚ) = den := by exact_mod_cast he
      linarith
    simp only [beq_iff_eq]
    split_ifs <;> omega
  · push_cast at hlow hodd
    have h3 : den ≤ 2 * r := by exact_mod_cast (by linarith : (den : ℚ) ≤ 2 * r)
    have h4 : 2 * r = den → w % 2 = 1 := by
      intro he
      by_contra hc
      have := (hodd (by omega)).1
      have : (2 * r : ℚ) = den := by exact_mod_cast he
      linarith
    simp only [beq_iff_eq]
    split_ifs <;> omega

/-! ## The exponent -/

/-- The exponent at which a rational has 53 binary digits before the point, or fewer if it is the exponent of
the subnormal numbers. -/
structure ScaledAt (y : ℚ) (q : Int) : Prop where
  least : minExponent ≤ q
  lt : y * 2 ^ (-q) < 2 ^ 53
  ge : minExponent < q → 2 ^ 52 ≤ y * 2 ^ (-q)

theorem ScaledAt.not_lt {r : Int} (hq : ScaledAt y q) (hr : ScaledAt y r) : ¬ q < r := by
  intro hlt
  have hge := hr.ge (lt_of_le_of_lt hq.least hlt)
  have hy : 0 ≤ y := by
    by_contra hc
    have : y * 2 ^ (-r) ≤ 0 := mul_nonpos_of_nonpos_of_nonneg (by linarith) (by positivity)
    linarith
  have hstep : (2 : ℚ) ^ (-r) ≤ 2 ^ (-q) / 2 := by
    calc (2 : ℚ) ^ (-r) ≤ 2 ^ (-q - 1) := zpow_le_zpow_right₀ (by norm_num) (by omega)
      _ = 2 ^ (-q) / 2 := by rw [zpow_sub_one₀ (by norm_num)]; ring
  have : y * 2 ^ (-r) ≤ y * (2 ^ (-q) / 2) := by gcongr
  have := hq.lt
  linarith

theorem ScaledAt.unique {r : Int} (hq : ScaledAt y q) (hr : ScaledAt y r) : q = r := by
  have := hq.not_lt hr
  have := hr.not_lt hq
  omega

/-- A fraction moved to an exponent has a whole part below a bound just when it is below the bound itself. -/
theorem wholeAt_lt (hd : 0 < den) (q : Int) (n : Nat) :
    (if q ≥ 0 then num / (den * Nat.pow 2 q.toNat) else num * Nat.pow 2 (-q).toNat / den) < n ↔
      (num : ℚ) / den * 2 ^ (-q) < n := by
  have hd' : (0 : ℚ) < den := by exact_mod_cast hd
  simp only [Nat.pow_eq]
  split
  case isTrue h =>
    lift q to ℕ using h
    rw [Nat.div_lt_iff_lt_mul (by positivity), Int.toNat_natCast, zpow_neg, zpow_natCast, ← div_eq_mul_inv,
      div_div, div_lt_iff₀ (by positivity)]
    exact_mod_cast Iff.rfl
  case isFalse h =>
    obtain ⟨k, rfl⟩ : ∃ k : ℕ, q = -k := ⟨(-q).toNat, by omega⟩
    rw [Nat.div_lt_iff_lt_mul hd, neg_neg, Int.toNat_natCast, zpow_natCast, div_mul_eq_mul_div,
      div_lt_iff₀ hd']
    exact_mod_cast Iff.rfl

/-- At the difference of the two logarithms the fraction is within a factor of two. -/
theorem guess_bounds (hn : 0 < num) (hd : 0 < den) :
    2 ^ 51 < (num : ℚ) / den * 2 ^ (-(Int.ofNat num.log2 - Int.ofNat den.log2 - 52)) ∧
      (num : ℚ) / den * 2 ^ (-(Int.ofNat num.log2 - Int.ofNat den.log2 - 52)) < 2 ^ 53 := by
  have hd' : (0 : ℚ) < den := by exact_mod_cast hd
  have hnl : (2 : ℚ) ^ num.log2 ≤ num := by exact_mod_cast Nat.log2_self_le hn.ne'
  have hnh : (num : ℚ) < 2 ^ num.log2 * 2 := by exact_mod_cast Nat.lt_log2_self
  have hdl : (2 : ℚ) ^ den.log2 ≤ den := by exact_mod_cast Nat.log2_self_le hd.ne'
  have hdh : (den : ℚ) < 2 ^ den.log2 * 2 := by exact_mod_cast Nat.lt_log2_self
  have hg : (2 : ℚ) ^ (-(Int.ofNat num.log2 - Int.ofNat den.log2 - 52)) =
      2 ^ den.log2 * 2 ^ 52 / 2 ^ num.log2 := by
    rw [← zpow_natCast, ← zpow_natCast, ← zpow_natCast, ← zpow_add₀ (by norm_num), ← zpow_sub₀ (by norm_num)]
    congr 1
    simp only [Int.ofNat_eq_natCast]
    omega
  have hp : (0 : ℚ) < 2 ^ num.log2 := by positivity
  have hq : (0 : ℚ) < 2 ^ den.log2 := by positivity
  rw [hg, div_mul_div_comm, lt_div_iff₀ (by positivity), div_lt_iff₀ (by positivity)]
  generalize (2 : ℚ) ^ num.log2 = a at *
  generalize (2 : ℚ) ^ den.log2 = b at *
  constructor
  · have h1 : (den : ℚ) * a < b * 2 * a := by gcongr
    have h2 : b * a ≤ b * num := by gcongr
    linarith
  · have h1 : (num : ℚ) * b < a * 2 * b := by gcongr
    have h2 : a * b ≤ a * den := by gcongr
    linarith

theorem scaledAt_scaleFor (hn : 0 < num) (hd : 0 < den) : ScaledAt ((num : ℚ) / den) (scaleFor num den) := by
  obtain ⟨hlow, hhigh⟩ := guess_bounds hn hd
  have hy : (0 : ℚ) < num / den := by positivity
  unfold scaleFor
  simp only [wholeAt_lt hd]
  generalize (num : ℚ) / den = y at *
  generalize Int.ofNat num.log2 - Int.ofNat den.log2 - 52 = g at *
  simp only [Nat.pow_eq, Nat.cast_pow, Nat.cast_ofNat]
  have hstep : (2 : ℚ) ^ (-(g - 1)) = 2 ^ (-g) * 2 := by
    rw [← zpow_add_one₀ (by norm_num)]
    congr 1
    ring
  -- the exponent before it is raised to that of the subnormal numbers
  have main : ∃ q, 2 ^ 52 ≤ y * 2 ^ (-q) ∧ y * 2 ^ (-q) < 2 ^ 53 ∧
      (if y * 2 ^ (-(g - 1)) < 2 ^ 53 then g - 1 else if y * 2 ^ (-g) < 2 ^ 53 then g else g + 1) = q := by
    split_ifs with h1
    · refine ⟨g - 1, ?_, h1, rfl⟩
      rw [hstep]
      linarith
    · refine ⟨g, ?_, hhigh, rfl⟩
      rw [hstep] at h1
      linarith
  obtain ⟨q, hq1, hq2, hq⟩ := main
  rw [hq]
  split_ifs with h
  · refine ⟨le_rfl, ?_, fun h => absurd h (lt_irrefl _)⟩
    have : (2 : ℚ) ^ (-minExponent) ≤ 2 ^ (-q) := zpow_le_zpow_right₀ (by norm_num) (by omega)
    have : y * 2 ^ (-minExponent) ≤ y * 2 ^ (-q) := by gcongr
    linarith
  · exact ⟨by omega, hq2, fun _ => hq1⟩

theorem roundDiv_scaled (hd : 0 < den) (h : RoundsTo ((num : ℚ) / den * 2 ^ (-q)) m) :
    (if q ≥ 0 then roundDiv num (den * Nat.pow 2 q.toNat) else roundDiv (num * Nat.pow 2 (-q).toNat) den) = m := by
  simp only [Nat.pow_eq]
  split
  case isTrue hq =>
    lift q to ℕ using hq
    rw [zpow_neg, zpow_natCast, ← div_eq_mul_inv, div_div] at h
    apply roundDiv_eq (by positivity)
    exact_mod_cast h
  case isFalse hq =>
    obtain ⟨k, rfl⟩ : ∃ k : ℕ, q = -k := ⟨(-q).toNat, by omega⟩
    rw [neg_neg, zpow_natCast, div_mul_eq_mul_div] at h
    apply roundDiv_eq hd
    rw [neg_neg, Int.toNat_natCast]
    exact_mod_cast h

/-- **The nearest double** has the bits of a mantissa and an exponent that the fraction is rounded at. -/
theorem nearestBits_eq (hn : 0 < num) (hd : 0 < den) (hq : ScaledAt ((num : ℚ) / den) q)
    (hm : RoundsTo ((num : ℚ) / den * 2 ^ (-q)) m) :
    nearestBits num den =
      min (if m < 2 ^ 52 then m else (q + 1075).toNat * 2 ^ 52 + (m - 2 ^ 52)) (2047 * 2 ^ 52) := by
  unfold nearestBits
  rw [if_neg (by simpa using hn.ne')]
  simp only [(scaledAt_scaleFor hn hd).unique hq, roundDiv_scaled hd hm]
  rfl

/-! ## The rationals that round to a double -/

namespace Parts

variable {p : Parts} {x : ℚ}

/-- The one way to write a finite double: only at the least exponent does the mantissa have fewer than 53
binary digits. -/
structure Proper (p : Parts) : Prop where
  lt : p.mantissa < 2 ^ 53
  least : minExponent ≤ p.exponent
  greatest : p.exponent ≤ 971
  normal : minExponent < p.exponent → 2 ^ 52 ≤ p.mantissa

/-- The value without its sign. -/
def value (p : Parts) : ℚ := p.mantissa * 2 ^ p.exponent

/-- The word without its sign bit. -/
def bits (p : Parts) : Nat :=
  if p.mantissa < 2 ^ 52 then p.mantissa
  else (p.exponent + 1075).toNat * 2 ^ 52 + (p.mantissa - 2 ^ 52)

/-- How far the half-way point below is, in units of the last place. -/
def gapBelow (p : Parts) : ℚ := if p.mantissa = 2 ^ 52 ∧ minExponent < p.exponent then 1 / 4 else 1 / 2

/-- A rational lies between the half-way points around the value, or on one of them if the mantissa is
even. -/
structure Attracts (p : Parts) (x : ℚ) : Prop where
  low : p.mantissa - p.gapBelow ≤ x * 2 ^ (-p.exponent)
  high : x * 2 ^ (-p.exponent) ≤ p.mantissa + 1 / 2
  odd : p.mantissa % 2 = 1 →
    p.mantissa - p.gapBelow < x * 2 ^ (-p.exponent) ∧ x * 2 ^ (-p.exponent) < p.mantissa + 1 / 2

theorem gapBelow_le (p : Parts) : p.gapBelow ≤ 1 / 2 := by
  unfold gapBelow
  split <;> norm_num

theorem gapBelow_pos (p : Parts) : 0 < p.gapBelow := by
  unfold gapBelow
  split <;> norm_num

theorem Attracts.roundsTo (h : p.Attracts x) : RoundsTo (x * 2 ^ (-p.exponent)) p.mantissa := by
  have hgap := p.gapBelow_le
  constructor
  · linarith [h.low]
  · exact h.high
  · intro hm
    have := h.odd hm
    constructor <;> linarith

theorem attracts_value (p : Parts) : p.Attracts p.value := by
  have hv : p.value * 2 ^ (-p.exponent) = p.mantissa := by
    rw [value, mul_assoc, ← zpow_add₀ (by norm_num), add_neg_cancel, zpow_zero, mul_one]
  have hgap := p.gapBelow_pos
  constructor
  · linarith
  · linarith
  · intro _
    constructor <;> linarith

theorem Attracts.pos (h : p.Attracts x) (hm : 0 < p.mantissa) : 0 < x := by
  have hgap := p.gapBelow_le
  have h1 : (1 : ℚ) ≤ p.mantissa := by exact_mod_cast hm
  have : 0 < x * 2 ^ (-p.exponent) := by linarith [h.low]
  exact pos_of_mul_pos_left this (by positivity)

/-- Below a power of two the digits of the fraction start one place further down, and it is rounded up to
the power of two from there. -/
theorem Attracts.scaled_below (hp : p.Proper) (h : p.Attracts x) (hlt : x * 2 ^ (-p.exponent) < 2 ^ 52)
    (he : minExponent < p.exponent) :
    p.mantissa = 2 ^ 52 ∧ ScaledAt x (p.exponent - 1) ∧ RoundsTo (x * 2 ^ (-(p.exponent - 1))) (2 ^ 53) := by
  have hM : p.mantissa = 2 ^ 52 := by
    have h1 := hp.normal he
    have h2 : (p.mantissa : ℚ) < (2 ^ 52 + 1 : Nat) := by
      have := p.gapBelow_le
      push_cast
      linarith [h.low]
    have : p.mantissa < 2 ^ 52 + 1 := by exact_mod_cast h2
    omega
  have hlow : (2 : ℚ) ^ 52 - 1 / 4 ≤ x * 2 ^ (-p.exponent) := by
    have := h.low
    rw [gapBelow, if_pos ⟨hM, he⟩, hM] at this
    exact_mod_cast this
  have hstep : x * 2 ^ (-(p.exponent - 1)) = x * 2 ^ (-p.exponent) * 2 := by
    rw [mul_assoc, ← zpow_add_one₀ (by norm_num)]
    congr 2
    ring
  refine ⟨hM, ⟨by omega, ?_, ?_⟩, ⟨?_, ?_, by norm_num⟩⟩
  all_goals
    rw [hstep]
    push_cast
  · linarith
  · intro _
    linarith
  · linarith
  · linarith

/-- **Rounding finds the double.**  A fraction between the half-way points around a double has that double
for its nearest. -/
theorem nearestBits_eq_bits (hp : p.Proper) (hm : 0 < p.mantissa) (hd : 0 < den)
    (h : p.Attracts ((num : ℚ) / den)) : nearestBits num den = p.bits := by
  have hn : 0 < num := by
    have := h.pos hm
    by_contra hc
    obtain rfl : num = 0 := by omega
    simp at this
  obtain ⟨hlt, hleast, hgreatest, hnormal⟩ := hp
  by_cases hbelow : (num : ℚ) / den * 2 ^ (-p.exponent) < 2 ^ 52 ∧ minExponent < p.exponent
  case pos =>
    obtain ⟨hM, hq, hr⟩ := h.scaled_below ⟨hlt, hleast, hgreatest, hnormal⟩ hbelow.1 hbelow.2
    rw [nearestBits_eq hn hd hq hr, bits, hM]
    simp only [minExponent] at hleast hbelow
    norm_num
    omega
  case neg =>
    have hq : ScaledAt ((num : ℚ) / den) p.exponent := by
      refine ⟨hleast, ?_, fun he => ?_⟩
      · have h1 : (p.mantissa : ℚ) + 1 ≤ 2 ^ 53 := by exact_mod_cast hlt
        linarith [h.high]
      · by_contra hc
        exact hbelow ⟨not_le.mp hc, he⟩
    rw [nearestBits_eq hn hd hq h.roundsTo, bits]
    simp only [minExponent] at hleast
    apply Nat.min_eq_left
    split <;> omega

end Parts

end LispMachine.Double

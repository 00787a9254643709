import Mathlib.Data.Nat.Cast.Order.Field
import LispMachine.Proofs.Double.Rounding
import LispMachine.Double.Printer
/-!
# The shortest decimal

The ends of a double's interval are the half-way points around its value, so a decimal that the interval
accepts rounds to the double (`accepts_attracts`).  The search for such a decimal does not come back empty
(`shortest_accepts`): eighteen places below the first digit the grid is finer than the distance to the
half-way point below.
-/
namespace LispMachine.Double

/-- A power with a whole exponent, split into its numerator and its denominator. -/
theorem zpow_sides (b : Nat) (z : Int) :
    ((if z ≥ 0 then Nat.pow b z.toNat else 1 : Nat) : ℚ) / (if z ≥ 0 then 1 else Nat.pow b (-z).toNat : Nat) =
      (b : ℚ) ^ z := by
  simp only [Nat.pow_eq]
  split
  case isTrue h =>
    lift z to ℕ using h
    simp
  case isFalse h =>
    obtain ⟨k, rfl⟩ : ∃ k : ℕ, z = -k := ⟨(-z).toNat, by omega⟩
    simp

theorem denominator_pos {b : Nat} (hb : 0 < b) (z : Int) : 0 < (if z ≥ 0 then 1 else Nat.pow b (-z).toNat) := by
  split
  · exact Nat.one_pos
  · exact Nat.pow_pos hb

theorem numerator_pos {b : Nat} (hb : 0 < b) (z : Int) : 0 < (if z ≥ 0 then Nat.pow b z.toNat else 1) := by
  split
  · exact Nat.pow_pos hb
  · exact Nat.one_pos

theorem pow_length_toDigits_le {n : Nat} (hn : 0 < n) : 10 ^ ((Nat.toDigits 10 n).length - 1) ≤ n := by
  have hlen : 0 < (Nat.toDigits 10 n).length := Nat.length_toDigits_pos
  by_cases h1 : (Nat.toDigits 10 n).length = 1
  · rw [h1]
    exact hn
  · by_contra hc
    have := (Nat.length_toDigits_le_iff (by norm_num) (by omega)).mpr (not_le.mp hc)
    omega

theorem lt_pow_length_toDigits (n : Nat) : n < 10 ^ (Nat.toDigits 10 n).length :=
  (Nat.length_toDigits_le_iff (by norm_num) Nat.length_toDigits_pos).mp le_rfl

namespace Interval

variable {i : Interval} {n : Nat} {place : Int}

/-- What an interval accepts, in terms of the rationals it stands for. -/
theorem accepts_iff (hd : 0 < i.den) : i.accepts n place = true ↔
    if i.closed then (i.low : ℚ) / i.den ≤ n * 10 ^ place ∧ (n : ℚ) * 10 ^ place ≤ i.high / i.den
    else (i.low : ℚ) / i.den < n * 10 ^ place ∧ (n : ℚ) * 10 ^ place < i.high / i.den := by
  have hd' : (0 : ℚ) < i.den := by exact_mod_cast hd
  have hgrid := zpow_sides 10 place
  have hdown := denominator_pos (by norm_num : 0 < 10) place
  unfold accepts
  generalize (if place ≥ 0 then Nat.pow 10 place.toNat else 1) = up at *
  generalize (if place ≥ 0 then 1 else Nat.pow 10 (-place).toNat) = down at *
  have hdown' : (0 : ℚ) < down := by exact_mod_cast hdown
  have hup : (up : ℚ) = 10 ^ place * down := by
    rw [div_eq_iff hdown'.ne'] at hgrid
    exact_mod_cast hgrid
  have hx : ((n * up * i.den : Nat) : ℚ) = n * 10 ^ place * i.den * down := by
    push_cast
    rw [hup]
    ring
  have above (a : Nat) : a * down ≤ n * up * i.den ↔ (a : ℚ) / i.den ≤ n * 10 ^ place := by
    rw [div_le_iff₀ hd', ← mul_le_mul_iff_of_pos_right hdown', ← hx]
    exact_mod_cast Iff.rfl
  have below (a : Nat) : n * up * i.den ≤ a * down ↔ (n : ℚ) * 10 ^ place ≤ a / i.den := by
    rw [le_div_iff₀ hd', ← mul_le_mul_iff_of_pos_right hdown', ← hx]
    exact_mod_cast Iff.rfl
  cases i.closed
  · simp only [Bool.false_eq_true, if_false, Bool.and_eq_true, decide_eq_true_eq]
    rw [← not_le, ← not_le, above, below, not_le, not_le]
  · simp only [if_true, Bool.and_eq_true, decide_eq_true_eq]
    rw [above, below]

theorem accepts_of_between (hd : 0 < i.den) (hlow : (i.low : ℚ) / i.den < n * 10 ^ place)
    (hhigh : (n : ℚ) * 10 ^ place < i.high / i.den) : i.accepts n place = true := by
  rw [accepts_iff hd]
  split
  · exact ⟨hlow.le, hhigh.le⟩
  · exact ⟨hlow, hhigh⟩

/-! ## The search -/

theorem accepts_of_onGrid? {d : Decimal} (h : i.onGrid? place = some d) : i.accepts d.digits d.place = true := by
  unfold onGrid? at h
  generalize (if place ≥ 0 then Nat.pow 10 place.toNat else 1) = up at h
  generalize (if place ≥ 0 then 1 else Nat.pow 10 (-place).toNat) = down at h
  dsimp only at h
  generalize i.value * down / (i.den * up) = below at h
  split at h
  case h_1 hb ha =>
    rw [Bool.and_eq_true] at hb
    obtain rfl := Option.some.inj h
    dsimp only
    split
    · exact hb.1
    · exact ha
  case h_2 hb _ =>
    rw [Bool.and_eq_true] at hb
    obtain rfl := Option.some.inj h
    exact hb.1
  case h_3 ha =>
    obtain rfl := Option.some.inj h
    exact ha
  case h_4 => cases h

/-- A grid finer than the distance to the lower end holds a decimal that is accepted. -/
theorem onGrid?_isSome (hd : 0 < i.den) (hhigh : i.value < i.high)
    (hfine : (10 : ℚ) ^ place ≤ (i.value : ℚ) / i.den - i.low / i.den) : (i.onGrid? place).isSome = true := by
  have hd' : (0 : ℚ) < i.den := by exact_mod_cast hd
  have hgrid := zpow_sides 10 place
  have hdown := denominator_pos (by norm_num : 0 < 10) place
  have hup := numerator_pos (by norm_num : 0 < 10) place
  unfold onGrid?
  generalize (if place ≥ 0 then Nat.pow 10 place.toNat else 1) = up at *
  generalize (if place ≥ 0 then 1 else Nat.pow 10 (-place).toNat) = down at *
  have hup' : (0 : ℚ) < up := by exact_mod_cast hup
  have hdown' : (0 : ℚ) < down := by exact_mod_cast hdown
  have hp : (0 : ℚ) < 10 ^ place := by positivity
  have hV : ((i.value * down : Nat) : ℚ) / (i.den * up : Nat) * 10 ^ place = i.value / i.den := by
    have : ((10 : Nat) : ℚ) ^ place = 10 ^ place := by norm_num
    rw [← this, ← hgrid]
    push_cast
    field_simp
  -- the neighbour below is less than one step away
  have hle : ((i.value * down / (i.den * up) : Nat) : ℚ) * 10 ^ place ≤ i.value / i.den := by
    rw [← hV]
    gcongr
    exact Nat.cast_div_le
  have hlt : (i.value : ℚ) / i.den < ((i.value * down / (i.den * up) : Nat) + 1) * 10 ^ place := by
    rw [← hV]
    gcongr
    rw [div_lt_iff₀ (by positivity)]
    have := Nat.lt_mul_div_succ (i.value * down) (by positivity : 0 < i.den * up)
    rw [mul_comm (i.den * up)] at this
    exact_mod_cast this
  dsimp only
  generalize i.value * down / (i.den * up) = below at *
  have hvh : (i.value : ℚ) / i.den < i.high / i.den := by gcongr
  have hlow : (0 : ℚ) ≤ i.low / i.den := by positivity
  have hacc : i.accepts below place = true := accepts_of_between hd (by linarith) (by linarith)
  have hne : below ≠ 0 := by
    rintro rfl
    push_cast at hlt
    linarith
  have : (i.accepts below place && below != 0) = true := by simp [hacc, hne]
  rw [this]
  cases i.accepts (below + 1) place <;> rfl

theorem accepts_firstOnGrids {k : Nat} : ∀ {fuel : Nat} {place : Int}, k < fuel →
    (i.onGrid? (place - k)).isSome = true →
    i.accepts (i.firstOnGrids fuel place).digits (i.firstOnGrids fuel place).place = true := by
  induction k with
  | zero =>
    intro fuel place hk hs
    obtain ⟨fuel, rfl⟩ : ∃ f, fuel = f + 1 := ⟨fuel - 1, by omega⟩
    obtain ⟨d, hd⟩ := Option.isSome_iff_exists.mp hs
    rw [Nat.cast_zero, sub_zero] at hd
    rw [firstOnGrids, hd]
    exact accepts_of_onGrid? hd
  | succ k ih =>
    intro fuel place hk hs
    obtain ⟨fuel, rfl⟩ : ∃ f, fuel = f + 1 := ⟨fuel - 1, by omega⟩
    rw [firstOnGrids]
    cases hg : i.onGrid? place with
    | some d => exact accepts_of_onGrid? hg
    | none =>
      apply ih (by omega)
      rw [show place - 1 - (k : Int) = place - (k + 1 : Nat) by push_cast; ring]
      exact hs

/-- The leading zeros are counted right if the bound is large enough. -/
theorem den_le_leadingZeros {den : Nat} : ∀ {fuel value : Nat}, den ≤ value * 10 ^ fuel →
    den ≤ value * 10 ^ (leadingZeros fuel value den + 1)
  | 0, value, h => by
    unfold leadingZeros
    omega
  | fuel + 1, value, h => by
    unfold leadingZeros
    split
    · simpa using ‹_›
    · rw [pow_succ', ← mul_assoc] at h ⊢
      exact den_le_leadingZeros h

/-- The value has a digit at the place below its magnitude. -/
theorem zpow_magnitude_le (hd : 0 < i.den) (hv : i.den ≤ i.value * 10 ^ 330) :
    (10 : ℚ) ^ (i.magnitude - 1) ≤ i.value / i.den := by
  have hd' : (0 : ℚ) < i.den := by exact_mod_cast hd
  unfold magnitude
  split
  · rename_i hge
    have hw : 0 < i.value / i.den := Nat.div_pos hge hd
    have hpow := pow_length_toDigits_le hw
    rw [le_div_iff₀ hd', Int.ofNat_eq_natCast]
    have hlen : 0 < (Nat.toDigits 10 (i.value / i.den)).length := Nat.length_toDigits_pos
    generalize (Nat.toDigits 10 (i.value / i.den)).length = len at *
    rw [show (len : Int) - 1 = (len - 1 : Nat) by omega, zpow_natCast]
    exact_mod_cast (Nat.le_div_iff_mul_le hd).mp hpow
  · have h := den_le_leadingZeros hv
    rw [le_div_iff₀ hd', Int.negOfNat_eq, Int.ofNat_eq_natCast]
    generalize leadingZeros 330 i.value i.den = k at *
    rw [show -(k : Int) - 1 = -((k + 1 : Nat) : Int) by omega, zpow_neg, zpow_natCast,
      inv_mul_le_iff₀ (by positivity), mul_comm]
    exact_mod_cast h

end Interval

namespace Parts

variable {p : Parts} {n : Nat} {place : Int}

/-! ## The interval of a double -/

theorem interval_den_pos (p : Parts) : 0 < p.interval.den := denominator_pos (by norm_num : 0 < 2) _

/-- The ends and the value are counted in quarters of the last place. -/
theorem interval_unit (p : Parts) :
    ((if p.exponent - 2 ≥ 0 then Nat.pow 2 (p.exponent - 2).toNat else 1 : Nat) : ℚ) / p.interval.den =
      2 ^ p.exponent / 4 := by
  have h := zpow_sides 2 (p.exponent - 2)
  rw [Nat.cast_ofNat, zpow_sub₀ (by norm_num), show (2 : ℚ) ^ (2 : Int) = 4 by norm_num] at h
  exact h

theorem interval_value (p : Parts) : (p.interval.value : ℚ) / p.interval.den = p.value := by
  have h := p.interval_unit
  unfold interval at h ⊢
  dsimp only at h ⊢
  rw [Nat.cast_mul, mul_div_assoc, h, value]
  push_cast
  ring

theorem interval_high (p : Parts) :
    (p.interval.high : ℚ) / p.interval.den = (p.mantissa + 1 / 2) * 2 ^ p.exponent := by
  have h := p.interval_unit
  unfold interval at h ⊢
  dsimp only at h ⊢
  rw [Nat.cast_mul, mul_div_assoc, h]
  push_cast
  ring

theorem interval_value_lt_high (p : Parts) : p.interval.value < p.interval.high := by
  have hd : (0 : ℚ) < p.interval.den := by exact_mod_cast p.interval_den_pos
  have h : (p.interval.value : ℚ) / p.interval.den < p.interval.high / p.interval.den := by
    rw [interval_value, interval_high, value]
    gcongr
    linarith
  rw [div_lt_div_iff_of_pos_right hd] at h
  exact_mod_cast h

theorem interval_low (hm : 0 < p.mantissa) :
    (p.interval.low : ℚ) / p.interval.den = (p.mantissa - p.gapBelow) * 2 ^ p.exponent := by
  have h := p.interval_unit
  unfold interval at h ⊢
  dsimp only at h ⊢
  have hnarrow : (p.mantissa == Nat.pow 2 52 && p.exponent > minExponent) = true ↔
      p.mantissa = 2 ^ 52 ∧ minExponent < p.exponent := by
    simp
  rw [Nat.cast_mul, mul_div_assoc, h, gapBelow]
  simp only [hnarrow]
  split_ifs
  · rw [Nat.cast_sub (by omega)]
    push_cast
    ring
  · rw [Nat.cast_sub (by omega)]
    push_cast
    ring

/-- A decimal that the interval of a double accepts rounds to the double. -/
theorem accepts_attracts (hm : 0 < p.mantissa) (h : p.interval.accepts n place = true) :
    p.Attracts (n * 10 ^ place) := by
  rw [Interval.accepts_iff p.interval_den_pos, interval_low hm, interval_high] at h
  have hc : p.interval.closed = (p.mantissa % 2 == 0) := rfl
  have hp : (0 : ℚ) < 2 ^ p.exponent := by positivity
  rw [hc] at h
  by_cases heven : p.mantissa % 2 = 0
  · rw [if_pos (by simpa using heven)] at h
    constructor
    · rw [zpow_neg, le_mul_inv_iff₀ hp]
      exact h.1
    · rw [zpow_neg, mul_inv_le_iff₀ hp]
      exact h.2
    · omega
  · rw [if_neg (by simpa using heven)] at h
    have hlow : p.mantissa - p.gapBelow < n * 10 ^ place * 2 ^ (-p.exponent) := by
      rw [zpow_neg, lt_mul_inv_iff₀ hp]
      exact h.1
    have hhigh : n * 10 ^ place * 2 ^ (-p.exponent) < (p.mantissa : ℚ) + 1 / 2 := by
      rw [zpow_neg, mul_inv_lt_iff₀ hp]
      exact h.2
    exact ⟨hlow.le, hhigh.le, fun _ => ⟨hlow, hhigh⟩⟩

theorem value_ge (hp : p.Proper) (hm : 0 < p.mantissa) : (2 : ℚ) ^ minExponent ≤ p.value := by
  have h1 : (1 : ℚ) ≤ p.mantissa := by exact_mod_cast hm
  have h2 : (2 : ℚ) ^ minExponent ≤ 2 ^ p.exponent := zpow_le_zpow_right₀ (by norm_num) hp.least
  calc (2 : ℚ) ^ minExponent ≤ 2 ^ p.exponent := h2
    _ = 1 * 2 ^ p.exponent := (one_mul _).symm
    _ ≤ p.mantissa * 2 ^ p.exponent := by gcongr

/-- The half-way point below is not closer than the 54th binary digit. -/
theorem value_le_gap (hp : p.Proper) : p.value / 2 ^ 54 ≤ p.gapBelow * 2 ^ p.exponent := by
  have h1 : (p.mantissa : ℚ) / 2 ^ 54 ≤ p.gapBelow := by
    rw [div_le_iff₀ (by positivity)]
    unfold gapBelow
    split
    · rename_i h
      rw [h.1]
      norm_num
    · have : (p.mantissa : ℚ) < 2 ^ 53 := by exact_mod_cast hp.lt
      linarith
  rw [value, mul_div_right_comm]
  gcongr

/-- Seven decimal places are worth more than twenty-three binary ones. -/
theorem two_pow_le_ten_pow {i j : Nat} (k : Nat) (hi : i ≤ 23 * k) (hj : 7 * k ≤ j) : 2 ^ i ≤ 10 ^ j :=
  calc 2 ^ i ≤ 2 ^ (23 * k) := Nat.pow_le_pow_right (by decide) hi
    _ = (2 ^ 23) ^ k := Nat.pow_mul 2 23 k
    _ ≤ (10 ^ 7) ^ k := Nat.pow_le_pow_left (by decide) k
    _ = 10 ^ (7 * k) := (Nat.pow_mul 10 7 k).symm
    _ ≤ 10 ^ j := Nat.pow_le_pow_right (by decide) hj

/-- The bound on the leading zeros is large enough for every double. -/
theorem interval_den_le (hp : p.Proper) (hm : 0 < p.mantissa) :
    p.interval.den ≤ p.interval.value * 10 ^ 330 := by
  have hd : (0 : ℚ) < p.interval.den := by exact_mod_cast p.interval_den_pos
  have hv : (p.interval.den : ℚ) * 2 ^ minExponent ≤ p.interval.value := by
    have := value_ge hp hm
    rw [← p.interval_value, le_div_iff₀ hd] at this
    linarith
  have hsmall : (1 : ℚ) ≤ 2 ^ minExponent * 10 ^ 330 := by
    have h : 2 ^ 1074 ≤ 10 ^ 330 := two_pow_le_ten_pow 47 (by decide) (by decide)
    rw [minExponent, zpow_neg, ← div_eq_inv_mul, one_le_div (by positivity)]
    exact_mod_cast h
  have : (p.interval.den : ℚ) ≤ p.interval.value * 10 ^ 330 := by
    calc (p.interval.den : ℚ) = p.interval.den * 1 := (mul_one _).symm
      _ ≤ p.interval.den * (2 ^ minExponent * 10 ^ 330) := by gcongr
      _ = p.interval.den * 2 ^ minExponent * 10 ^ 330 := (mul_assoc _ _ _).symm
      _ ≤ p.interval.value * 10 ^ 330 := by gcongr
  exact_mod_cast this

/-- **The search ends with a decimal that reads back.** -/
theorem shortest_accepts (hp : p.Proper) (hm : 0 < p.mantissa) :
    p.interval.accepts p.interval.shortest.digits p.interval.shortest.place = true := by
  have hv := value_ge hp hm
  have hmag : (10 : ℚ) ^ (p.interval.magnitude - 1) ≤ p.value := by
    rw [← p.interval_value]
    exact Interval.zpow_magnitude_le p.interval_den_pos (interval_den_le hp hm)
  apply Interval.accepts_firstOnGrids (by norm_num : 18 < 20)
  apply Interval.onGrid?_isSome p.interval_den_pos
  · exact p.interval_value_lt_high
  · rw [p.interval_value, interval_low hm]
    have hstep : (10 : ℚ) ^ (p.interval.magnitude - (18 : Nat)) = 10 ^ (p.interval.magnitude - 1) / 10 ^ 17 := by
      rw [← zpow_natCast, ← zpow_sub₀ (by norm_num)]
      congr 1
      omega
    calc (10 : ℚ) ^ (p.interval.magnitude - (18 : Nat)) = 10 ^ (p.interval.magnitude - 1) / 10 ^ 17 := hstep
      _ ≤ p.value / 10 ^ 17 := by gcongr
      _ ≤ p.value / 2 ^ 54 := by
        have : 0 ≤ p.value := le_trans (by positivity) hv
        gcongr
        norm_num
      _ ≤ p.gapBelow * 2 ^ p.exponent := value_le_gap hp
      _ = p.value - (p.mantissa - p.gapBelow) * 2 ^ p.exponent := by rw [value]; ring

end Parts

end LispMachine.Double

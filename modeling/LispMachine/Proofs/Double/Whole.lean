import LispMachine.Proofs.Double.RoundTrip
/-!
# Whole numbers as doubles

Rounding a whole number to the nearest double keeps its sign: no positive number is rounded down to zero
(`nearestBits_pos`), and the sign bit is that of the number.  Hence the double compares with zero as the number does
(`compare_ofInt`).
-/
namespace LispMachine.Double

open Float.Model Float.Model.UnpackedFloat

variable {num w : Nat} {n : Int} {b : UInt64} {negative : Bool} {u : UnpackedFloat}

/-! ## The word of a whole number -/

theorem roundDiv_pos {num den : Nat} (h : 0 < num / den) : 0 < roundDiv num den := by
  unfold roundDiv
  dsimp only
  split_ifs <;> omega

theorem nearestBits_pos (hn : 0 < num) : 0 < nearestBits num 1 := by
  have hscale := scaledAt_scaleFor hn Nat.one_pos
  unfold nearestBits
  rw [if_neg (by simpa using hn.ne')]
  dsimp only
  generalize scaleFor num 1 = q at hscale
  have hq := hscale.least
  simp only [Nat.pow_eq, minExponent] at hq ⊢
  have hm : 0 < (if q ≥ 0 then roundDiv num (1 * 2 ^ q.toNat) else roundDiv (num * 2 ^ (-q).toNat) 1) := by
    split
    case isTrue hq0 =>
      -- the whole part alone has 53 digits
      have hge : (2 : ℚ) ^ 52 ≤ (num : ℚ) / (1 : Nat) * 2 ^ (-q) := hscale.ge (by simp only [minExponent]; omega)
      refine roundDiv_pos ?_
      rw [one_mul]
      refine Nat.div_pos ?_ (by positivity)
      lift q to ℕ using hq0
      rw [zpow_neg, zpow_natCast, Nat.cast_one, div_one, ← div_eq_mul_inv, le_div_iff₀ (by positivity)] at hge
      have : (2 : ℚ) ^ q ≤ 2 ^ 52 * 2 ^ q := le_mul_of_one_le_left (by positivity) (by norm_num)
      rw [Int.toNat_natCast]
      exact_mod_cast this.trans hge
    case isFalse =>
      refine roundDiv_pos ?_
      rw [Nat.div_one]
      positivity
  generalize (if q ≥ 0 then roundDiv num (1 * 2 ^ q.toNat) else roundDiv (num * 2 ^ (-q).toNat) 1) = m at hm
  refine Nat.lt_min.mpr ⟨?_, by norm_num⟩
  split <;> omega

/-! ## The sign of a word -/

def signOf (negative : Bool) : Sign := if negative then .negative else .positive

/-- The number is not zero and has the sign. -/
def Signed (negative : Bool) : UnpackedFloat → Prop
  | .infinity s | .finite s _ _ _ => s = signOf negative
  | _ => False

theorem Signed.compare_zero (h : Signed negative u) (s : Sign) :
    u.compare (.zero s) = some (if negative then .lt else .gt) := by
  cases u <;> cases h <;> cases negative <;> rfl

theorem Signed.zero_compare (h : Signed negative u) (s : Sign) :
    (UnpackedFloat.zero s).compare u = some (if negative then .gt else .lt) := by
  cases u <;> cases h <;> cases negative <;> rfl

theorem sign_eq (b : UInt64) :
    Sign.ofBitVec (@unpackSign Format.binary64 b.toBitVec) = signOf (b.toNat / 2 ^ 63 = 1) := by
  have : b.toNat < 2 ^ 64 := b.toNat_lt
  rw [unpackSign_def]
  unfold Sign.ofBitVec signOf
  simp only [← BitVec.toNat_inj]
  simp [Nat.shiftRight_eq_div_pow]
  split_ifs <;> first | rfl | omega

/-- A word up to the one of infinity that is not zero stands for a positive number, and with the sign bit for a
negative one. -/
theorem signed_ofBits (hpos : 0 < w) (hle : w ≤ 2047 * 2 ^ 52) (negative : Bool) :
    Signed negative (Float.ofBits (UInt64.ofNat (if negative then w + 2 ^ 63 else w))).toModel.unpack := by
  obtain ⟨b, hb, hnat⟩ : ∃ b, b = UInt64.ofNat (if negative then w + 2 ^ 63 else w) ∧
      b.toNat = if negative then w + 2 ^ 63 else w :=
    ⟨_, rfl, UInt64.toNat_ofNat_of_lt' (by rw [UInt64.size]; split <;> omega)⟩
  rw [← hb]
  have hnan : ¬ (b.toNat / 2 ^ 52 % 2 ^ 11 = 2047 ∧ b.toNat % 2 ^ 52 ≠ 0) := by rw [hnat]; split <;> omega
  rw [show (Float.ofBits b).toModel.unpack = UnpackedFloat.unpack Format.binary64 b.toBitVec from
    congrArg (fun bits : UInt64 => UnpackedFloat.unpack Format.binary64 bits.toBitVec) (toBits_ofBits hnan)]
  have hsign : Sign.ofBitVec (@unpackSign Format.binary64 b.toBitVec) = signOf negative := by
    rw [sign_eq, hnat]
    congr 1
    cases negative <;> simp <;> omega
  unfold UnpackedFloat.unpack
  dsimp only
  split_ifs with hexp hman hexp' hman'
  · exact hsign
  · rw [← isNaNBits_iff] at hnan
    exact hnan (by simp [isNaNBits, hexp, hman])
  · -- all bits but the sign are zero
    simp only [unpackExponent_def, unpackMantissa_def, ← BitVec.toNat_inj] at hexp' hman'
    simp [Nat.shiftRight_eq_div_pow] at hexp' hman'
    split at hnat <;> omega
  · exact hsign
  · exact hsign

/-! ## Comparing with zero -/

theorem signed_ofInt (h : n ≠ 0) : Signed (n < 0) (ofInt n).toModel.unpack := by
  have := signed_ofBits (nearestBits_pos (Int.natAbs_pos.mpr h)) (nearestBits_le n.natAbs 1) (decide (n < 0))
  simpa [ofInt, nearest] using this

theorem ofInt_beq_zero (n : Int) : (ofInt n == 0.0) = decide (n = 0) := by
  change (ofInt n).toModel.unpack.beq (.zero .positive) = _
  rcases eq_or_ne n 0 with rfl | h
  · rfl
  · unfold UnpackedFloat.beq
    rw [(signed_ofInt h).compare_zero]
    split_ifs <;> simp [h]

theorem ofInt_pos_iff (n : Int) : ofInt n > 0.0 ↔ 0 < n := by
  refine Iff.trans (b := (UnpackedFloat.zero .positive).lt (ofInt n).toModel.unpack = true) decide_eq_true_iff ?_
  rcases eq_or_ne n 0 with rfl | h
  · decide
  · unfold UnpackedFloat.lt
    rw [(signed_ofInt h).zero_compare]
    split_ifs <;> simp_all <;> omega

theorem ofInt_neg_iff (n : Int) : ofInt n < 0.0 ↔ n < 0 := by
  refine Iff.trans (b := (ofInt n).toModel.unpack.lt (.zero .positive) = true) decide_eq_true_iff ?_
  rcases eq_or_ne n 0 with rfl | h
  · decide
  · unfold UnpackedFloat.lt
    rw [(signed_ofInt h).compare_zero]
    split_ifs <;> simp_all

end LispMachine.Double

import Mathlib
import LispMachine.Proofs.Double.Shortest
import LispMachine.Double.Reader
/-!
# Doubles are read back as they were written

A finite double is written as digits around a point (`render_eq_pointed`), and that text reads as the same
double (`read?_render`): a double without a fraction is written exactly, and every other one as a decimal
that rounds to it.  No decimal reads as the double that is not a number.
-/
namespace LispMachine.Double

open Float.Model Float.Model.UnpackedFloat

variable {d : Float} {p : Parts} {num den n : Nat} {place : Int}

/-! ## Words -/

/-- The word of a double that is not a number: the largest exponent and a fraction. -/
theorem isNaNBits_iff (b : UInt64) :
    @isNaNBits Format.binary64 b.toBitVec = true ↔ b.toNat / 2 ^ 52 % 2 ^ 11 = 2047 ∧ b.toNat % 2 ^ 52 ≠ 0 := by
  simp only [isNaNBits, unpackExponent_def, unpackMantissa_def, decide_eq_true_eq, ne_eq, ← BitVec.toNat_inj]
  simp [Nat.shiftRight_eq_div_pow]

theorem toBits_ofBits {b : UInt64} (h : ¬ (b.toNat / 2 ^ 52 % 2 ^ 11 = 2047 ∧ b.toNat % 2 ^ 52 ≠ 0)) :
    (Float.ofBits b).toBits = b := by
  apply UInt64.toBitVec_inj.mp
  have hb : @isNaNBits Format.binary64 b.toBitVec = false := by
    rw [← Bool.not_eq_true, isNaNBits_iff]
    exact h
  have := @pack_unpack Format.binary64 b.toBitVec
  rw [hb] at this
  exact this

/-- The word of a finite double. -/
def Parts.word (p : Parts) : Nat := if p.negative then p.bits + 2 ^ 63 else p.bits

theorem classify_finite (h : classify d = .finite p) : p.Proper ∧ d.toBits.toNat = p.word := by
  have hlt := d.toBits.toNat_lt
  unfold classify at h
  generalize d.toBits.toNat = b at *
  simp only [Nat.pow_eq, beq_iff_eq] at h
  have hfraction : b % 2 ^ 52 < 2 ^ 52 := Nat.mod_lt _ (by norm_num)
  split at h
  · split at h <;> cases h
  · split at h
    case isTrue hfield =>
      obtain rfl := Kind.finite.inj h
      constructor
      · constructor
        · exact lt_trans hfraction (by norm_num)
        · exact le_rfl
        · exact (by decide : minExponent ≤ 971)
        · exact fun hc => absurd hc (lt_irrefl _)
      · unfold Parts.word Parts.bits
        dsimp only
        rw [if_pos hfraction]
        by_cases hs : b / 2 ^ 63 = 1
        · rw [if_pos (by simpa using hs)]
          omega
        · rw [if_neg (by simpa using hs)]
          omega
    case isFalse hinf hfield =>
      obtain rfl := Kind.finite.inj h
      constructor
      · constructor
        · dsimp only
          omega
        · simp only [minExponent, Int.ofNat_eq_natCast]
          omega
        · simp only [Int.ofNat_eq_natCast]
          omega
        · intro _
          exact Nat.le_add_left _ _
      · unfold Parts.word Parts.bits
        simp only [Int.ofNat_eq_natCast, if_neg (by omega : ¬ b % 2 ^ 52 + 2 ^ 52 < 2 ^ 52)]
        by_cases hs : b / 2 ^ 63 = 1
        · rw [if_pos (by simpa using hs)]
          omega
        · rw [if_neg (by simpa using hs)]
          omega

/-- There is one double that is not a number. -/
theorem eq_nan_of_classify (h : classify d = .nan) : d = Float.nan := by
  have hb : @isNaNBits Format.binary64 d.toBits.toBitVec = true := by
    rw [isNaNBits_iff]
    unfold classify at h
    simp only [Nat.pow_eq, beq_iff_eq] at h
    split at h
    case isTrue hfield =>
      split at h
      · cases h
      · exact ⟨hfield, ‹_›⟩
    case isFalse =>
      split at h <;> cases h
  have hpack := @pack_unpack Format.binary64 d.toBits.toBitVec
  rw [hb] at hpack
  rw [← Float.toBits_inj, ← UInt64.toBitVec_inj, ← Float.ofBits_toBits d]
  exact hpack

theorem nearest_eq (h : classify d = .finite p) (hb : nearestBits num den = p.bits) :
    nearest p.negative num den = d := by
  have hw := (classify_finite h).2
  unfold nearest
  rw [hb]
  change Float.ofBits (UInt64.ofNat p.word) = d
  rw [← hw, UInt64.ofNat_toNat, Float.ofBits_toBits]

theorem nearestBits_le (num den : Nat) : nearestBits num den ≤ 2047 * 2 ^ 52 := by
  unfold nearestBits
  split
  · exact Nat.zero_le _
  · exact Nat.min_le_right _ _

theorem nearest_ne_nan (negative : Bool) (num den : Nat) : nearest negative num den ≠ Float.nan := by
  intro h
  have hle := nearestBits_le num den
  unfold nearest at h
  simp only [Nat.pow_eq] at h
  generalize hw : (if negative = true then nearestBits num den + 2 ^ 63 else nearestBits num den) = w at h
  have hlt : w < 2 ^ 64 := by
    rw [← hw]
    split <;> omega
  have hnat : (UInt64.ofNat w).toNat = w := UInt64.toNat_ofNat_of_lt' hlt
  have hbits : (Float.ofBits (UInt64.ofNat w)).toBits = UInt64.ofNat w := by
    apply toBits_ofBits
    rw [hnat, ← hw]
    split <;> omega
  rw [h] at hbits
  have : Float.nan.toBits.toNat = w := by rw [hbits, hnat]
  rw [show Float.nan.toBits.toNat = 0x7ff8000000000000 from rfl] at this
  split at hw <;> omega

/-! ## Decimals -/

theorem Parts.Attracts.ge {x : ℚ} (hp : p.Proper) (hm : 0 < p.mantissa) (ha : p.Attracts x) :
    (10 : ℚ) ^ (-400 : Int) ≤ x := by
  have hE : (0 : ℚ) < 2 ^ p.exponent := by positivity
  have hgap := p.gapBelow_le
  have hm1 : (1 : ℚ) ≤ p.mantissa := by exact_mod_cast hm
  have h := ha.low
  rw [zpow_neg, le_mul_inv_iff₀ hE] at h
  calc (10 : ℚ) ^ (-400 : Int) ≤ 2 ^ (-1075 : Int) := by
        have h : 2 ^ 1075 ≤ 10 ^ 400 := two_pow_le_ten_pow 47 (by decide) (by decide)
        rw [zpow_neg, zpow_neg]
        apply inv_anti₀ (by positivity)
        exact_mod_cast h
    _ = 1 / 2 * 2 ^ minExponent := by
        rw [minExponent, show (-1075 : Int) = -1 + -1074 by norm_num, zpow_add₀ (by norm_num)]
        norm_num
    _ ≤ 1 / 2 * 2 ^ p.exponent := by
        gcongr
        · norm_num
        · exact hp.least
    _ ≤ (p.mantissa - p.gapBelow) * 2 ^ p.exponent := by
        gcongr
        linarith
    _ ≤ x := h

theorem Parts.Attracts.lt {x : ℚ} (hp : p.Proper) (ha : p.Attracts x) : x < (10 : ℚ) ^ (400 : Int) := by
  have hE : (0 : ℚ) < 2 ^ p.exponent := by positivity
  have hm : (p.mantissa : ℚ) + 1 ≤ 2 ^ 53 := by exact_mod_cast hp.lt
  have h := ha.high
  rw [zpow_neg, mul_inv_le_iff₀ hE] at h
  calc x ≤ (p.mantissa + 1 / 2) * 2 ^ p.exponent := h
    _ < 2 ^ 53 * 2 ^ p.exponent := by
        gcongr
        linarith
    _ ≤ 2 ^ 53 * 2 ^ (971 : Int) := by
        gcongr
        · norm_num
        · exact hp.greatest
    _ = 2 ^ (1024 : Int) := by
        rw [← zpow_natCast, ← zpow_add₀ (by norm_num)]
        norm_num
    _ ≤ 10 ^ (400 : Int) := by
        have h : 2 ^ 1024 ≤ 10 ^ 400 := two_pow_le_ten_pow 47 (by decide) (by decide)
        exact_mod_cast h

/-- A decimal that rounds to a double other than zero is neither too large nor too small to be looked at. -/
theorem size_bounds (hp : p.Proper) (hm : 0 < p.mantissa) (ha : p.Attracts (n * 10 ^ place)) :
    0 < n ∧ -400 ≤ ((Nat.toDigits 10 n).length : Int) + place ∧
      ((Nat.toDigits 10 n).length : Int) + place ≤ 400 := by
  have hn : 0 < n := by
    have hx := ha.pos hm
    by_contra hc
    obtain rfl : n = 0 := by omega
    simp at hx
  have hlen : 0 < (Nat.toDigits 10 n).length := Nat.length_toDigits_pos
  have hlow := pow_length_toDigits_le hn
  have hhigh := lt_pow_length_toDigits n
  generalize (Nat.toDigits 10 n).length = len at *
  have hpl : (0 : ℚ) < 10 ^ place := by positivity
  refine ⟨hn, ?_, ?_⟩
  · have h : (n : ℚ) * 10 ^ place < 10 ^ ((len : Int) + place) := by
      rw [zpow_add₀ (by norm_num), zpow_natCast]
      gcongr
      exact_mod_cast hhigh
    have := (zpow_lt_zpow_iff_right₀ (by norm_num)).mp (lt_of_le_of_lt (ha.ge hp hm) h)
    omega
  · have h : (10 : ℚ) ^ ((len : Int) - 1 + place) ≤ n * 10 ^ place := by
      rw [zpow_add₀ (by norm_num), show (len : Int) - 1 = (len - 1 : Nat) by omega, zpow_natCast]
      gcongr
      exact_mod_cast hlow
    have := (zpow_lt_zpow_iff_right₀ (by norm_num)).mp (lt_of_le_of_lt h (ha.lt hp))
    omega

/-- **A decimal between the half-way points around a double reads as the double.** -/
theorem ofDecimal_eq (h : classify d = .finite p) (hm : 0 < p.mantissa) (ha : p.Attracts (n * 10 ^ place)) :
    ofDecimal p.negative n place = d := by
  have hp := (classify_finite h).1
  obtain ⟨hn, hlow, hhigh⟩ := size_bounds hp hm ha
  unfold ofDecimal
  simp only [Int.ofNat_eq_natCast]
  rw [if_neg (by simp; omega), if_neg (by omega)]
  split
  case isTrue hplace =>
    lift place to ℕ using hplace
    apply nearest_eq h
    apply p.nearestBits_eq_bits hp hm Nat.one_pos
    rw [zpow_natCast] at ha
    simpa using ha
  case isFalse hplace =>
    obtain ⟨k, rfl⟩ : ∃ k : ℕ, place = -k := ⟨(-place).toNat, by omega⟩
    apply nearest_eq h
    apply p.nearestBits_eq_bits hp hm (Nat.pow_pos (by norm_num))
    rw [zpow_neg, zpow_natCast, ← div_eq_mul_inv] at ha
    simpa using ha

theorem ofDecimal_zero (h : classify d = .finite p) (hm : p.mantissa = 0) :
    ofDecimal p.negative 0 place = d := by
  unfold ofDecimal
  simp only [beq_self_eq_true, Bool.true_or, if_true]
  apply nearest_eq h
  rw [Parts.bits, if_pos (by omega), hm]
  rfl

theorem ofDecimal_ne_nan (negative : Bool) (n : Nat) (place : Int) : ofDecimal negative n place ≠ Float.nan := by
  unfold ofDecimal
  dsimp only
  split_ifs <;> exact nearest_ne_nan _ _ _

/-! ## Whole values -/

theorem Parts.value_eq_whole (h : p.isWhole = true) : p.value = p.whole := by
  unfold isWhole at h
  unfold value whole
  simp only [Nat.pow_eq] at h ⊢
  split
  case isTrue he =>
    rw [show p.exponent = (p.exponent.toNat : Int) by omega, zpow_natCast]
    push_cast
    rw [Int.toNat_natCast]
  case isFalse he =>
    have hdvd : 2 ^ (-p.exponent).toNat ∣ p.mantissa := by
      apply Nat.dvd_of_mod_eq_zero
      simpa [he] using h
    rw [Nat.cast_div hdvd (by positivity), show p.exponent = -((-p.exponent).toNat : Int) by omega, zpow_neg,
      zpow_natCast, ← div_eq_mul_inv]
    push_cast
    rw [neg_neg, Int.toNat_natCast]

/-- Only the value itself is a whole number that rounds to a double above the exponent zero. -/
theorem Parts.isWhole_of_attracts {w : Nat} (ha : p.Attracts w) : p.isWhole = true := by
  by_cases he : p.exponent ≥ 0
  · simp [isWhole, he]
  · obtain ⟨k, hk⟩ : ∃ k : ℕ, p.exponent = -k := ⟨(-p.exponent).toNat, by omega⟩
    have hgap := p.gapBelow_le
    have hlow := ha.low
    have hhigh := ha.high
    rw [hk, neg_neg, zpow_natCast] at hlow hhigh
    have h1 : p.mantissa < w * 2 ^ k + 1 := by
      have : (p.mantissa : ℚ) < w * 2 ^ k + 1 := by linarith
      exact_mod_cast this
    have h2 : w * 2 ^ k < p.mantissa + 1 := by
      have : (w : ℚ) * 2 ^ k < p.mantissa + 1 := by linarith
      exact_mod_cast this
    have : p.mantissa = w * 2 ^ k := by omega
    simp [isWhole, this, hk]

/-! ## Texts -/

/-- Digits before and after a point, and at least one before it. -/
structure Pointed (whole fraction : List Char) : Prop where
  ne_nil : whole ≠ []
  whole : ∀ c ∈ whole, c.isDigit = true
  fraction : ∀ c ∈ fraction, c.isDigit = true

theorem digitsValue_eq (ds : List Char) : digitsValue ds = Nat.ofDigitChars 10 ds 0 := by
  rw [Nat.ofDigitChars_eq_foldl, digitsValue]
  simp only [mul_comm]

theorem spanDigits_append {ds rest : List Char} (h : ∀ c ∈ ds, c.isDigit = true)
    (hr : ∀ c ∈ rest.head?, c.isDigit = false) : spanDigits (ds ++ rest) = (ds, rest) := by
  rw [spanDigits, List.span_eq_takeWhile_dropWhile, List.takeWhile_append_of_pos h, List.dropWhile_append_of_pos h]
  cases rest with
  | nil => simp
  | cons c cs => simp [hr c rfl]

theorem toLower_of_isDigit {c : Char} (h : c.isDigit = true) : c.toLower = c := by
  simp only [Char.isDigit, Bool.and_eq_true, decide_eq_true_eq, UInt32.le_iff_toNat_le, ge_iff_le] at h
  unfold Char.toLower
  rw [dif_neg]
  simp only [UInt32.le_iff_toNat_le, ge_iff_le]
  have h9 : '9'.val.toNat = 57 := rfl
  have hA : 'A'.val.toNat = 65 := rfl
  omega

/-- A text that starts with a digit is no word for a double. -/
theorem word_ne {a c : Char} (ha : a.isDigit = true) (hc : c.isDigit = false) (cs w : List Char) :
    (String.ofList ((a :: cs).map Char.toLower) == String.ofList (c :: w)) = false := by
  rw [beq_eq_false_iff_ne]
  intro he
  have := List.head_eq_of_cons_eq (String.ofList_inj.mp he)
  rw [toLower_of_isDigit ha] at this
  rw [this, hc] at ha
  cases ha

theorem readUnsigned?_digit (negative : Bool) {a : Char} (ha : a.isDigit = true) (cs : List Char) :
    readUnsigned? negative (a :: cs) =
      let (whole, rest) := spanDigits (a :: cs)
      let (fraction, rest) : List Char × List Char :=
        match rest with
        | '.' :: rest => spanDigits rest
        | _ => ([], rest)
      if whole.isEmpty && fraction.isEmpty then none
      else
        (readExponent? rest).map fun e =>
          ofDecimal negative (digitsValue (whole ++ fraction)) (e - Int.ofNat fraction.length) := by
  have hinf : (String.ofList ((a :: cs).map Char.toLower) == "inf") = false := word_ne ha rfl cs ['n', 'f']
  have hinfinity : (String.ofList ((a :: cs).map Char.toLower) == "infinity") = false :=
    word_ne ha rfl cs ['n', 'f', 'i', 'n', 'i', 't', 'y']
  have hnan : (String.ofList ((a :: cs).map Char.toLower) == "nan") = false := word_ne ha rfl cs ['a', 'n']
  unfold readUnsigned?
  simp only [hinf, hinfinity, hnan]
  rfl

theorem readUnsigned?_pointed (negative : Bool) {A B : List Char} (h : Pointed A B) :
    readUnsigned? negative (A ++ '.' :: B) =
      some (ofDecimal negative (digitsValue (A ++ B)) (-(B.length : Int))) := by
  have hA : spanDigits (A ++ '.' :: B) = (A, '.' :: B) := spanDigits_append h.whole (by simp)
  have hB : spanDigits B = (B, []) := by
    have := spanDigits_append h.fraction (by simp : ∀ c ∈ ([] : List Char).head?, c.isDigit = false)
    rwa [List.append_nil] at this
  obtain ⟨a, A', rfl⟩ := List.exists_cons_of_ne_nil h.ne_nil
  rw [List.cons_append] at hA ⊢
  rw [readUnsigned?_digit negative (h.whole a List.mem_cons_self)]
  simp only [hA, hB]
  simp [readExponent?]

theorem spanSign_digit {a : Char} (ha : a.isDigit = true) (cs : List Char) :
    spanSign (a :: cs) = (false, a :: cs) := by
  unfold spanSign
  split
  · rename_i he
    rw [(List.cons.inj he).1] at ha
    cases ha
  · rename_i he
    rw [(List.cons.inj he).1] at ha
    cases ha
  · rfl

/-- An optional sign and then a digit. -/
theorem read?_sign_digit (negative : Bool) {a : Char} (ha : a.isDigit = true) (cs : List Char) :
    read? (sign negative ++ String.ofList (a :: cs)) = readUnsigned? negative (a :: cs) := by
  unfold read?
  rw [String.toList_append, String.toList_ofList]
  cases negative with
  | true => rfl
  | false =>
    have hsign : spanSign ((sign false).toList ++ a :: cs) = (false, a :: cs) := spanSign_digit ha cs
    rw [hsign]

theorem read?_pointed (negative : Bool) {A B : List Char} (h : Pointed A B) :
    read? (sign negative ++ String.ofList (A ++ '.' :: B)) =
      some (ofDecimal negative (digitsValue (A ++ B)) (-(B.length : Int))) := by
  rw [← readUnsigned?_pointed negative h]
  obtain ⟨a, A', rfl⟩ := List.exists_cons_of_ne_nil h.ne_nil
  exact read?_sign_digit negative (h.whole a List.mem_cons_self) _

/-- **No decimal reads as the double that is not a number.** -/
theorem read?_ne_nan (negative : Bool) {a : Char} (ha : a.isDigit = true) (cs : List Char) :
    read? (sign negative ++ String.ofList (a :: cs)) ≠ some Float.nan := by
  rw [read?_sign_digit negative ha, readUnsigned?_digit negative ha]
  intro h
  dsimp only at h
  split at h
  all_goals
    split at h
    · cases h
    · obtain ⟨e, -, he⟩ := Option.map_eq_some_iff.mp h
      exact ofDecimal_ne_nan _ _ _ he

theorem isDigit_of_mem_toDigits {c : Char} (h : c ∈ Nat.toDigits 10 n) : c.isDigit = true :=
  Nat.isDigit_of_mem_toDigits (by norm_num) le_rfl h

theorem isDigit_of_mem_zeros {c : Char} {k : Nat} (h : c ∈ List.replicate k '0') : c.isDigit = true := by
  rw [List.eq_of_mem_replicate h]
  rfl

/-- A decimal with places after the point is written with a point. -/
theorem Decimal.positional_pointed (t : Decimal) (h : t.place < 0) : ∃ A B, Pointed A B ∧
    t.positional = String.ofList (A ++ '.' :: B) ∧ digitsValue (A ++ B) = t.digits ∧ (B.length : Int) = -t.place := by
  unfold positional
  rw [if_neg (by omega)]
  have hdigits := @isDigit_of_mem_toDigits t.digits
  have hvalue : digitsValue (Nat.toDigits 10 t.digits) = t.digits := by
    rw [digitsValue_eq, Nat.ofDigitChars_ten_toDigits]
  generalize Nat.toDigits 10 t.digits = ds at *
  dsimp only
  split
  case isTrue hlen =>
    refine ⟨ds.take (ds.length - (-t.place).toNat), ds.drop (ds.length - (-t.place).toNat), ⟨?_, ?_, ?_⟩, ?_, ?_, ?_⟩
    · intro hnil
      have := congrArg List.length hnil
      simp at this
      omega
    · intro c hc
      exact hdigits (List.mem_of_mem_take hc)
    · intro c hc
      exact hdigits (List.mem_of_mem_drop hc)
    · rw [← String.toList_inj]
      simp
    · rw [List.take_append_drop, hvalue]
    · rw [List.length_drop]
      omega
  case isFalse hlen =>
    refine ⟨['0'], List.replicate ((-t.place).toNat - ds.length) '0' ++ ds, ⟨by simp, ?_, ?_⟩, ?_, ?_, ?_⟩
    · intro c hc
      exact isDigit_of_mem_zeros (k := 1) hc
    · intro c hc
      rcases List.mem_append.mp hc with hc | hc
      · exact isDigit_of_mem_zeros hc
      · exact hdigits hc
    · rw [← String.toList_inj]
      simp [zeros]
    · rw [digitsValue_eq, Nat.ofDigitChars_append, Nat.ofDigitChars_append, Nat.ofDigitChars_replicate_zero, ← hvalue,
        digitsValue_eq]
      rfl
    · rw [List.length_append, List.length_replicate]
      omega

/-- **A finite double is written with a point, as a decimal that reads as the double.** -/
theorem render_eq_pointed (h : classify d = .finite p) : ∃ A B, Pointed A B ∧
    render d = sign p.negative ++ String.ofList (A ++ '.' :: B) ∧
    ofDecimal p.negative (digitsValue (A ++ B)) (-(B.length : Int)) = d := by
  unfold render
  rw [h]
  dsimp only
  split
  case isTrue hw =>
    refine ⟨Nat.toDigits 10 p.whole, ['0'], ⟨Nat.toDigits_ne_nil, fun c => isDigit_of_mem_toDigits, by simp⟩, ?_, ?_⟩
    · rw [Nat.toString_eq_ofList_toDigits, ← String.toList_inj]
      simp
    · have hvalue : digitsValue (Nat.toDigits 10 p.whole ++ ['0']) = p.whole * 10 := by
        rw [digitsValue_eq, Nat.ofDigitChars_append, Nat.ofDigitChars_ten_toDigits, Nat.ofDigitChars_cons,
          Nat.ofDigitChars_nil, mul_comm]
        rfl
      rw [hvalue]
      rcases Nat.eq_zero_or_pos p.mantissa with hm | hm
      · have : p.whole = 0 := by simp [Parts.whole, hm]
        rw [this, Nat.zero_mul]
        exact ofDecimal_zero h hm
      · apply ofDecimal_eq h hm
        have : ((p.whole * 10 : Nat) : ℚ) * 10 ^ (-((['0'].length : Nat) : Int)) = p.value := by
          rw [Parts.value_eq_whole hw]
          norm_num
          ring
        rw [this]
        exact p.attracts_value
  case isFalse hw =>
    have hm : 0 < p.mantissa := by
      by_contra hc
      apply hw
      simp [Parts.isWhole, show p.mantissa = 0 by omega]
    have ha := p.accepts_attracts hm (p.shortest_accepts (classify_finite h).1 hm)
    have hplace : p.interval.shortest.place < 0 := by
      by_contra hc
      apply hw
      obtain ⟨k, hk⟩ : ∃ k : ℕ, p.interval.shortest.place = k := ⟨p.interval.shortest.place.toNat, by omega⟩
      rw [hk, zpow_natCast] at ha
      exact Parts.isWhole_of_attracts (w := p.interval.shortest.digits * 10 ^ k) (by exact_mod_cast ha)
    obtain ⟨A, B, hAB, htext, hvalue, hlen⟩ := p.interval.shortest.positional_pointed hplace
    refine ⟨A, B, hAB, ?_, ?_⟩
    · unfold plain
      rw [h]
      dsimp only
      rw [if_neg (by simpa using hm.ne'), htext]
    · rw [hvalue, hlen, neg_neg]
      exact ofDecimal_eq h hm ha

def isInfinite (d : Float) : Bool :=
  match classify d with
  | .infinite _ => true
  | _ => false

theorem exists_finite (hnan : d ≠ Float.nan) (hinf : isInfinite d = false) : ∃ p, classify d = .finite p := by
  cases h : classify d with
  | nan => exact absurd (eq_nan_of_classify h) hnan
  | infinite negative =>
    rw [isInfinite, h] at hinf
    cases hinf
  | finite p => exact ⟨p, rfl⟩

/-- **A finite double reads back as it was written.** -/
theorem read?_render (h : classify d = .finite p) : read? (render d) = some d := by
  obtain ⟨A, B, hAB, htext, hd⟩ := render_eq_pointed h
  rw [htext, read?_pointed _ hAB, hd]

end LispMachine.Double

import LispMachine.Proofs.Core.Collections
import LispMachine.Proofs.Numbers.Integers
/-!
# Ranges of numbers

A range is meant to have the numbers to which the steps lead from its start and which are before its end (`Progression`).
They have 64 bits because the start and the end have (`fits_of_before`), but the one after the last need not.  If it has,
the range is the progression; if it has not, the machine gives up when it comes to that number, although it is not in the
range (`range_progression`).  In steps of one the number after the last is the end (`range_by_one`).
-/
namespace LispMachine.Core

open Value Numbers

/-! ## Progressions -/

/-- The number is before the end, in the direction of the step. -/
def Before (stop step n : Int) : Prop := 0 < step ∧ n < stop ∨ step < 0 ∧ stop < n

/-- All numbers before the end to which the steps lead from the start, in this order. -/
structure Progression (start stop step : Int) (zs : List Int64) : Prop where
  before : ∀ i : Nat, i < zs.length ↔ Before stop step (start + i * step)
  toInt : ∀ (i : Nat) (z : Int64), zs[i]? = some z → z.toInt = start + i * step

/-- How many numbers are before the end. -/
def rangeCount (start stop step : Int) : Nat :=
  if 0 < step then ((stop - start + (step - 1)) / step).toNat else ((start - stop + (-step - 1)) / -step).toNat

section Integers

variable {start stop step : Int}

theorem lt_rangeCount_iff (start stop : Int) (hstep : step ≠ 0) (i : Nat) :
    i < rangeCount start stop step ↔ Before stop step (start + i * step) := by
  unfold Before rangeCount
  rcases Int.lt_or_gt_of_ne hstep with hneg | hpos
  · have hmul : ((i : Int) + 1) * -step = -step - i * step := by ring
    have hle := Int.le_ediv_iff_mul_le (a := i + 1) (b := start - stop + (-step - 1)) (Int.neg_pos_of_neg hneg)
    rw [if_neg (by omega), Int.lt_toNat]
    omega
  · have hmul : ((i : Int) + 1) * step = step + i * step := by ring
    have hle := Int.le_ediv_iff_mul_le (a := i + 1) (b := stop - start + (step - 1)) hpos
    rw [if_pos hpos, Int.lt_toNat]
    omega

/-- What is before the end lies between the start and the end. -/
theorem fits_of_before (hstart : Fits start) (hstop : Fits stop) (i : Nat) (h : Before stop step (start + i * step)) :
    Fits (start + i * step) := by
  obtain ⟨hle, hlt⟩ := hstart
  obtain ⟨hle', hlt'⟩ := hstop
  rcases h with ⟨hpos, h⟩ | ⟨hneg, h⟩
  · have : 0 ≤ (i : Int) * step := Int.mul_nonneg (Int.natCast_nonneg i) hpos.le
    constructor <;> omega
  · have : (i : Int) * step ≤ 0 := Int.mul_nonpos_of_nonneg_of_nonpos (Int.natCast_nonneg i) hneg.le
    constructor <;> omega

/-- The numbers before the end are fewer than the words. -/
theorem rangeCount_lt (hstart : Fits start) (hstop : Fits stop) (hstep : step ≠ 0) : rangeCount start stop step < 2 ^ 64 := by
  obtain ⟨hle, hlt⟩ := hstart
  obtain ⟨hle', hlt'⟩ := hstop
  refine Nat.lt_of_not_le fun h => ?_
  have hlast := (lt_rangeCount_iff start stop hstep (2 ^ 64 - 1)).1 (by omega)
  unfold Before at hlast
  omega

end Integers

/-! ## Words -/

variable {start stop step : Int64} {n : Nat}

theorem fits_toInt (x : Int64) : Fits x.toInt := ⟨x.le_toInt, x.toInt_lt⟩

/-- The word to which so many steps lead. -/
def word (start step : Int64) (i : Nat) : Int64 := .ofInt (start.toInt + i * step.toInt)

/-- The first so many words. -/
def words (start step : Int64) (n : Nat) : List Int64 := (List.range n).map (word start step)

theorem word_zero (start step : Int64) : word start step 0 = start := by
  rw [word, Int.natCast_zero, Int.zero_mul, Int.add_zero, Int64.ofInt_toInt]

theorem toInt_word {i : Nat} (h : Fits (start.toInt + i * step.toInt)) : (word start step i).toInt = start.toInt + i * step.toInt :=
  Int64.toInt_ofInt_of_le h.1 h.2

theorem isBefore_iff (stop step i : Int64) : isBefore stop step i = true ↔ Before stop.toInt step.toInt i.toInt := by
  simp only [isBefore, Before, Bool.or_eq_true, Bool.and_eq_true, decide_eq_true_eq, Int64.lt_iff_toInt_lt, Int64.toInt_zero]

/-- The words that are before the end are those of a progression. -/
theorem progression_words (start stop : Int64) (hstep : step ≠ 0) :
    Progression start.toInt stop.toInt step.toInt (words start step (rangeCount start.toInt stop.toInt step.toInt)) := by
  have hcount := lt_rangeCount_iff start.toInt stop.toInt (toInt_ne_zero hstep)
  refine ⟨fun i => ?_, fun i z hz => ?_⟩
  · rw [words, List.length_map, List.length_range]
    exact hcount i
  · rw [words, List.getElem?_map, Option.map_eq_some_iff] at hz
    obtain ⟨j, hj, rfl⟩ := hz
    obtain ⟨hi, rfl⟩ := List.getElem?_eq_some_iff.1 hj
    rw [List.getElem_range]
    rw [List.length_range] at hi
    exact toInt_word (fits_of_before (fits_toInt start) (fits_toInt stop) i ((hcount i).1 hi))

/-- All of them are before the end. -/
theorem isBefore_word (start stop : Int64) (hstep : step ≠ 0) :
    ∀ j < rangeCount start.toInt stop.toInt step.toInt, isBefore stop step (word start step j) = true := by
  intro j hj
  have hbefore := (lt_rangeCount_iff _ _ (toInt_ne_zero hstep) j).1 hj
  rw [isBefore_iff, toInt_word (fits_of_before (fits_toInt start) (fits_toInt stop) j hbefore)]
  exact hbefore

/-! ## Counting -/

theorem addLong_word {i : Nat} (hi : Fits (start.toInt + i * step.toInt)) :
    addLong (word start step i) step = fit (start.toInt + (i + 1 : Nat) * step.toInt) := by
  rw [addLong, toInt_word hi, Int.add_assoc]
  push_cast
  rw [Int.add_mul, Int.one_mul]

theorem addLong_word_of_fits {i : Nat} (hi : Fits (start.toInt + i * step.toInt))
    (h : Fits (start.toInt + (i + 1 : Nat) * step.toInt)) : addLong (word start step i) step = .ok (word start step (i + 1)) := by
  obtain ⟨z, hz, hfit⟩ := fit_of_fits h
  rw [addLong_word hi, hfit, Int64.toInt_inj.1 (hz.trans (toInt_word h).symm)]

/-- The count comes through the words that are before the end, and to the one after them, as long as there are such words. -/
theorem countOn_through (fuel : Nat) (hbefore : ∀ j < n, isBefore stop step (word start step j) = true)
    (hfits : ∀ j ≤ n, Fits (start.toInt + j * step.toInt)) :
    countOn stop step (fuel + n) start [] = countOn stop step fuel (word start step n) ((words start step n).map Value.long).reverse := by
  induction n generalizing fuel with
  | zero => rw [word_zero]; rfl
  | succ n ih =>
    have hnext := addLong_word_of_fits (hfits n (Nat.le_succ n)) (hfits (n + 1) (Nat.le_refl _))
    rw [Nat.add_comm n, ← Nat.add_assoc, ih (fuel + 1) (fun j hj => hbefore j (Nat.lt_succ_of_lt hj)) fun j hj => hfits j (Nat.le_succ_of_le hj)]
    rw [countOn, if_pos (hbefore n (Nat.lt_succ_self n)), hnext, words, words, Nat.add_comm 1, List.range_succ, List.map_append,
      List.map_append, List.reverse_append]
    rfl

/-- If all words before the end are followed by a word then the count gives them. -/
theorem countOn_of_fits (hn : n < UInt64.size) (hbefore : ∀ j < n, isBefore stop step (word start step j) = true)
    (hfits : ∀ j ≤ n, Fits (start.toInt + j * step.toInt)) (hend : ¬ isBefore stop step (word start step n) = true) :
    countOn stop step UInt64.size start [] = some ((words start step n).map .long) := by
  obtain ⟨fuel, hfuel⟩ := Nat.exists_eq_add_of_lt hn
  rw [hfuel, Nat.add_assoc, Nat.add_comm n, countOn_through _ hbefore hfits, countOn, if_neg hend, List.reverse_reverse]

/-- If a word before the end is followed by no word then the count gives nothing. -/
theorem countOn_of_not_fits (hn : n < UInt64.size) (hbefore : ∀ j ≤ n, isBefore stop step (word start step j) = true)
    (hfits : ∀ j ≤ n, Fits (start.toInt + j * step.toInt)) (hend : ¬ Fits (start.toInt + (n + 1 : Nat) * step.toInt)) :
    countOn stop step UInt64.size start [] = none := by
  obtain ⟨fuel, hfuel⟩ := Nat.exists_eq_add_of_lt hn
  rw [hfuel, Nat.add_assoc, Nat.add_comm n, countOn_through _ (fun j hj => hbefore j hj.le) hfits, countOn,
    if_pos (hbefore n (Nat.le_refl n)), addLong_word (hfits n (Nat.le_refl n)), fit_of_not_fits hend]

/-! ## Ranges -/

/-- The call is the count, and a list of the numbers. -/
theorem call_range (start stop step : Int64) : call .range [.long start, .long stop, .long step] =
    (range start stop step >>= Run.newList) >>= fun v => return .value v := rfl

/-- Without a step the steps are of one. -/
theorem call_range_two (start stop : Int64) : call .range [.long start, .long stop] =
    (range start stop 1 >>= Run.newList) >>= fun v => return .value v := rfl

/-- **A range is an arithmetic progression** if the number after the last has 64 bits.  If it has not, there is no range. -/
theorem range_progression (start stop : Int64) (hstep : step ≠ 0) (w : World) :
    ∃ zs, Progression start.toInt stop.toInt step.toInt zs ∧
      (Fits (start.toInt + zs.length * step.toInt) →
        Makes .range [.long start, .long stop, .long step] w (.list w.nextId (zs.map .long))) ∧
      (¬ Fits (start.toInt + zs.length * step.toInt) →
        call .range [.long start, .long stop, .long step] w = Run.abort w) := by
  have hne : step.toInt ≠ 0 := toInt_ne_zero hstep
  have hbefore := isBefore_word start stop hstep
  have hfits : ∀ j < rangeCount start.toInt stop.toInt step.toInt, Fits (start.toInt + j * step.toInt) := fun j hj =>
    fits_of_before (fits_toInt start) (fits_toInt stop) j ((lt_rangeCount_iff _ _ hne j).1 hj)
  refine ⟨_, progression_words start stop hstep, ?_⟩
  rw [words, List.length_map, List.length_range, ← words, Makes, call_range, range, if_neg (by simpa using hstep)]
  generalize hcount : rangeCount start.toInt stop.toInt step.toInt = count at *
  have hlt : count < UInt64.size := hcount ▸ rangeCount_lt (fits_toInt start) (fits_toInt stop) hne
  constructor
  · intro hend
    have hstop : ¬ isBefore stop step (word start step count) = true := by
      rw [isBefore_iff, toInt_word hend, ← lt_rangeCount_iff start.toInt stop.toInt hne, hcount]
      exact Nat.lt_irrefl _
    rw [countOn_of_fits hlt hbefore (fun j hj => (Nat.lt_or_eq_of_le hj).elim (hfits j) fun h => h ▸ hend) hstop]
    rfl
  · intro hend
    cases count with
    | zero =>
      rw [Int.natCast_zero, Int.zero_mul, Int.add_zero] at hend
      exact absurd (fits_toInt start) hend
    | succ last =>
      rw [countOn_of_not_fits (Nat.lt_of_succ_lt hlt) (fun j hj => hbefore j (Nat.lt_succ_of_le hj))
        (fun j hj => hfits j (Nat.lt_succ_of_le hj)) hend]
      rfl

/-- In steps of one the number after the last is the end. -/
theorem range_by_one (start stop : Int64) (w : World) : ∃ zs, Progression start.toInt stop.toInt 1 zs ∧
    Makes .range [.long start, .long stop] w (.list w.nextId (zs.map .long)) := by
  obtain ⟨zs, hzs, hmakes, -⟩ := range_progression start stop (by decide : (1 : Int64) ≠ 0) w
  rw [show (1 : Int64).toInt = 1 from rfl] at hzs hmakes
  refine ⟨zs, hzs, ?_⟩
  rw [Makes, call_range_two, ← call_range]
  refine hmakes ?_
  cases hlen : zs.length with
  | zero => exact ⟨by have := start.le_toInt; omega, by have := start.toInt_lt; omega⟩
  | succ n =>
    have hlast : Before stop.toInt 1 (start.toInt + n * 1) := (hzs.before n).1 (hlen ▸ Nat.lt_succ_self n)
    unfold Before at hlast
    have := start.le_toInt
    have := stop.toInt_lt
    constructor <;> omega

-- the only number before the end is 1, but the one after it has more than 64 bits
example (w : World) : call .range [.long 1, .long 2, .long Int64.maxValue] w = Run.abort w := by
  rfl

end LispMachine.Core

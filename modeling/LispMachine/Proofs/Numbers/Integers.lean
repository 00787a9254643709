import LispMachine.Host.Call
import LispMachine.Host.Library
import LispMachine.Proofs.Double.Whole
/-!
# Arithmetic on longs

Arithmetic is there in two ways, as functions on boxed numbers and as overloads of host members that take longs as they
are.  On two longs every way gives the number that the operation has over the integers, or throws if that number has
more than 64 bits or is divided by zero (`longArithmetic`).  Nothing wraps, and what goes through a double in between,
the tests of a sign, does not lose it.  The two operations that divide before they look at the size of the quotient bring
the machine down where it is too large (`unlessFatal_long`); of these operands `longArithmetic` says nothing.
-/
namespace LispMachine.Numbers

/-! ## Ways to compute -/

/-- The overloads on longs that arithmetic has under a name. -/
def longOverloads (name : String) (count : Nat) : List HostMember :=
  (Host.membersOf ClassId.numbers).filter fun m => m.name == name && m.params == List.replicate count Host.longType

/-- The function on boxed numbers, and the overloads on longs of that name. -/
def ways (name : String) (boxed : Except Failure Value) (xs : List Int64) : List (Run Value) :=
  Run.ofExcept boxed :: (longOverloads name xs.length).map fun m => Slot.toValue <$> Host.call m.op (xs.map .long)

-- every operation on two longs but `divide` and `modulo` has an overload of its own
example : (["add", "minus", "multiply", "divide", "quotient", "remainder", "modulo", "lt", "lte", "gt", "gte",
    "equiv"].filter fun name => (longOverloads name 2).length != 1) = ["divide", "modulo"] := by decide

/-- The number has 64 bits. -/
def Fits (n : Int) : Prop := -2 ^ 63 ≤ n ∧ n < 2 ^ 63

/-- The run ends with the value and changes nothing. -/
def Gives (r : Run Value) (v : Value) : Prop := ∀ w, r w = (.value v, w)

/-- The run throws the exception that announces the failure, and does nothing else. -/
def Throws (r : Run Value) (f : Failure) : Prop := ∀ w, r w = Run.raise f w

/-- The run gives the long with this value, or throws if there is no such long. -/
structure Exact (r : Run Value) (n : Int) : Prop where
  gives : Fits n → ∃ z : Int64, z.toInt = n ∧ Gives r (.long z)
  throws : ¬ Fits n → Throws r (.arithmetic "integer overflow")

/-- The run fails for a divisor that is zero, and for no other in this way. -/
def Guarded (r : Run Value) (y : Int64) : Prop := Throws r (.arithmetic "Divide by zero") ↔ y = 0

/-- The number is zero or has the sign of the other. -/
def SignOf (n m : Int) : Prop := n = 0 ∨ n.sign = m.sign

/-- What a division rounded toward zero leaves. -/
structure IsRemainder (x y : Int64) (z : Int64) : Prop where
  lt : z.toInt.natAbs < y.toInt.natAbs
  sign : SignOf z.toInt x.toInt
  eq : ∀ r ∈ ways "quotient" (quotient (.long x) (.long y)) [x, y], ∀ q, Gives r (.long q) →
    x.toInt = y.toInt * q.toInt + z.toInt

/-- The representative of `x` modulo `y` that has the sign of `y`. -/
structure IsModulus (x y : Int64) (z : Int64) : Prop where
  lt : z.toInt.natAbs < y.toInt.natAbs
  sign : SignOf z.toInt y.toInt
  congr : z.toInt ≡ x.toInt [ZMOD y.toInt]

/-- What arithmetic does with two longs. -/
structure LongArithmetic (x y : Int64) : Prop where
  add : ∀ r ∈ ways "add" (add (.long x) (.long y)) [x, y], Exact r (x.toInt + y.toInt)
  minus : ∀ r ∈ ways "minus" (minus (.long x) (.long y)) [x, y], Exact r (x.toInt - y.toInt)
  multiply : ∀ r ∈ ways "multiply" (multiply (.long x) (.long y)) [x, y], Exact r (x.toInt * y.toInt)
  inc : ∀ r ∈ ways "inc" (inc (.long x)) [x], Exact r (x.toInt + 1)
  dec : ∀ r ∈ ways "dec" (dec (.long x)) [x], Exact r (x.toInt - 1)
  quotient : ∀ r ∈ ways "quotient" (quotient (.long x) (.long y)) [x, y],
    Guarded r y ∧ (y ≠ 0 → Exact r (x.toInt.tdiv y.toInt))
  remainder : ∀ r ∈ ways "remainder" (remainder (.long x) (.long y)) [x, y],
    Guarded r y ∧ (y ≠ 0 → ∃ z, Gives r (.long z) ∧ IsRemainder x y z)
  modulo : ¬ (x = Int64.minValue ∧ y = -1) → ∀ r ∈ ways "modulo" (modulo (.long x) (.long y)) [x, y],
    Guarded r y ∧ (y ≠ 0 → ∃ z, Gives r (.long z) ∧ IsModulus x y z)
  divide : ¬ (x = Int64.minValue ∧ y = -1) → ∀ r ∈ ways "divide" (divide (.long x) (.long y)) [x, y],
    Guarded r y ∧ (y ≠ 0 →
      (y.toInt ∣ x.toInt → ∃ z, Gives r (.long z) ∧ x.toInt = y.toInt * z.toInt) ∧
      (¬ y.toInt ∣ x.toInt → ∃ d, Gives r (.double d)))
  lt : ∀ r ∈ ways "lt" (.bool <$> lt (.long x) (.long y)) [x, y], Gives r (.bool (x.toInt < y.toInt))
  lte : ∀ r ∈ ways "lte" (.bool <$> lte (.long x) (.long y)) [x, y], Gives r (.bool (x.toInt ≤ y.toInt))
  gt : ∀ r ∈ ways "gt" (.bool <$> gt (.long x) (.long y)) [x, y], Gives r (.bool (x.toInt > y.toInt))
  gte : ∀ r ∈ ways "gte" (.bool <$> gte (.long x) (.long y)) [x, y], Gives r (.bool (x.toInt ≥ y.toInt))
  equiv : ∀ r ∈ ways "equiv" (.bool <$> numEquiv (.long x) (.long y)) [x, y], Gives r (.bool (x.toInt = y.toInt))
  isZero : ∀ r ∈ ways "isZero" (.bool <$> isZero (.long x)) [x], Gives r (.bool (x.toInt = 0))
  isPos : ∀ r ∈ ways "isPos" (.bool <$> isPos (.long x)) [x], Gives r (.bool (0 < x.toInt))
  isNeg : ∀ r ∈ ways "isNeg" (.bool <$> isNeg (.long x)) [x], Gives r (.bool (x.toInt < 0))

variable {x y z : Int64} {n : Int} {xs : List Int64} {name : String} {l : List HostMember}
  {e : Except Failure Value} {r : Run Value} {v : Value} {f g : Failure}

/-! ## Results and failures -/

theorem gives_ofExcept (v : Value) : Gives (Run.ofExcept (.ok v)) v := fun _ => rfl

theorem throws_ofExcept (f : Failure) : Throws (Run.ofExcept (.error f)) f := fun _ => rfl

theorem Gives.not_throws (h : Gives r v) : ¬ Throws r f := by
  intro hf
  have := (h World.initial).symm.trans (hf World.initial)
  simp [Run.raise] at this

theorem Gives.unique {v' : Value} (h : Gives r v) (h' : Gives r v') : v = v' := by
  have := (h World.initial).symm.trans (h' World.initial)
  simpa using this

theorem Throws.unique (h : Throws r f) (h' : Throws r g) : f = g := by
  have := (h World.initial).symm.trans (h' World.initial)
  obtain ⟨type, message⟩ := f
  obtain ⟨type', message'⟩ := g
  simpa [Run.raise, Run.exceptionOf] using this

theorem guarded_of_gives (hy : y ≠ 0) (h : Gives r v) : Guarded r y :=
  ⟨fun h' => absurd h' h.not_throws, fun h' => absurd h' hy⟩

theorem guarded_zero (h : Throws r divideByZero) : Guarded r 0 := ⟨fun _ => rfl, fun _ => h⟩

theorem Exact.guarded (hy : y ≠ 0) (h : Exact r n) : Guarded r y := by
  refine ⟨fun h' => ?_, fun h' => absurd h' hy⟩
  by_cases hn : Fits n
  · obtain ⟨z, -, hz⟩ := h.gives hn
    exact absurd h' hz.not_throws
  · exact absurd (h'.unique (h.throws hn)) (by simp [Failure.arithmetic])

/-- An overload that computes what the boxed function does is not another way. -/
theorem eq_of_mem_ways (hm : longOverloads name xs.length = l)
    (h : ∀ m ∈ l, ∃ a : Except Failure Slot, Host.call m.op (xs.map .long) = Run.ofExcept a ∧ Slot.toValue <$> a = e)
    (hr : r ∈ ways name e xs) : r = Run.ofExcept e := by
  rcases List.mem_cons.mp hr with rfl | hr
  · rfl
  · obtain ⟨m, hmem, rfl⟩ := List.mem_map.mp hr
    obtain ⟨a, hcall, rfl⟩ := h m (hm ▸ hmem)
    rw [hcall]
    cases a <;> rfl

/-! ## Results that may be too large -/

theorem fit_of_fits (h : Fits n) : ∃ z : Int64, z.toInt = n ∧ fit n = .ok z :=
  ⟨Int64.ofInt n, Int64.toInt_ofInt_of_le h.1 h.2, if_pos ⟨h.1, Int.le_of_lt_add_one h.2⟩⟩

theorem fit_of_not_fits (h : ¬ Fits n) : fit n = .error overflow :=
  if_neg fun h' => h ⟨h'.1, Int.lt_add_one_of_le h'.2⟩

theorem exact_fit (n : Int) : Exact (Run.ofExcept (do return .long (← fit n))) n := by
  constructor
  · intro hn
    obtain ⟨z, hz, hfit⟩ := fit_of_fits hn
    rw [hfit]
    exact ⟨z, hz, gives_ofExcept _⟩
  · intro hn
    rw [fit_of_not_fits hn]
    exact throws_ofExcept _

theorem exact_of_mem_ways {m : HostMember} (hm : longOverloads name xs.length = [m])
    (hcall : Host.call m.op (xs.map .long) = Run.ofExcept (do return .long (← fit n)))
    (hr : r ∈ ways name (do return .long (← fit n)) xs) : Exact r n := by
  rw [eq_of_mem_ways hm (List.forall_mem_singleton.mpr ⟨_, hcall, by cases fit n <;> rfl⟩) hr]
  exact exact_fit n

/-! ## Division -/

theorem binary_long (long : Int64 → Int64 → Except Failure Int64) (double : Float → Float → Float) (x y : Int64) :
    binary long double (.long x) (.long y) = do return .long (← long x y) := rfl

theorem quotient_eq (hy : y ≠ 0) :
    quotient (.long x) (.long y) = do return .long (← fit (x.toInt.tdiv y.toInt)) := by
  rw [quotient, binary_long, quotLong, if_neg (by simpa using hy)]

theorem remainder_eq (hy : y ≠ 0) :
    remainder (.long x) (.long y) = .ok (.long (.ofInt (x.toInt.tmod y.toInt))) := by
  rw [remainder, binary_long, remLong, if_neg (by simpa using hy)]
  rfl

theorem toInt_ne_zero (hy : y ≠ 0) : y.toInt ≠ 0 := by
  rwa [ne_eq, ← Int64.toInt_zero, Int64.toInt_inj]

/-- What is nearer to zero than a long is a long. -/
theorem toInt_ofInt_of_lt (h : n.natAbs < y.toInt.natAbs) : (Int64.ofInt n).toInt = n := by
  have := y.le_toInt
  have := y.toInt_lt
  exact Int64.toInt_ofInt_of_le (by omega) (by omega)

/-- The euclidean remainder and the one of division rounded down differ by the divisor, for a negative divisor that does
not divide. -/
theorem modLong_eq (hy : y ≠ 0) : modLong x y = .ok (.ofInt (x.toInt.fmod y.toInt)) := by
  have hnonneg := Int.emod_nonneg x.toInt (toInt_ne_zero hy)
  have hlt := Int.emod_lt x.toInt (toInt_ne_zero hy)
  have hm : (Int64.ofInt (x.toInt % y.toInt)).toInt = x.toInt % y.toInt := toInt_ofInt_of_lt (y := y) (by omega)
  have hneg : y < 0 ↔ ¬ 0 ≤ y.toInt := by
    rw [Int64.lt_iff_toInt_lt, Int64.toInt_zero, Int.not_le]
  have hzero : Int64.ofInt (x.toInt % y.toInt) = 0 ↔ y.toInt ∣ x.toInt := by
    rw [← Int64.toInt_inj, hm, Int64.toInt_zero, Int.dvd_iff_emod_eq_zero]
  have hfix : (y < 0 && Int64.ofInt (x.toInt % y.toInt) != 0) = true ↔ ¬ (0 ≤ y.toInt ∨ y.toInt ∣ x.toInt) := by
    rw [Bool.and_eq_true, decide_eq_true_iff, bne_iff_ne, ne_eq, hneg, hzero, not_or]
  rw [modLong, if_neg (by simpa using hy), Int.fmod_eq_emod]
  dsimp only
  by_cases h : 0 ≤ y.toInt ∨ y.toInt ∣ x.toInt
  · rw [if_neg (fun h' => hfix.mp h' h), if_pos h, Int.add_zero]
  · rw [if_pos (hfix.mpr h), if_neg h, Int64.ofInt_add, Int64.ofInt_toInt]

theorem modulo_eq (hy : y ≠ 0) : modulo (.long x) (.long y) = .ok (.long (.ofInt (x.toInt.fmod y.toInt))) := by
  rw [modulo, binary_long, modLong_eq hy]
  rfl

theorem divide_eq (hy : y ≠ 0) : divide (.long x) (.long y) =
    if y.toInt ∣ x.toInt then quotient (.long x) (.long y)
    else .ok (.double (Double.ofInt x.toInt / Double.ofInt y.toInt)) := by
  change (if (y == 0) = true then _ else if (x.toInt.tmod y.toInt == 0) = true then _ else _) = _
  rw [if_neg (by simpa using hy)]
  simp only [beq_iff_eq, Int.dvd_iff_tmod_eq_zero]
  rfl

/-- The overload of a division looks at the divisor first; that changes nothing if the division does so too. -/
theorem eq_of_mem_ways_guarded (op : Int64 → Int64 → Except Failure Int64) {m : HostMember}
    (hop : ∀ x, op x 0 = .error divideByZero) (hm : longOverloads name [x, y].length = [m])
    (hcall : Host.call m.op ([x, y].map .long) =
      Run.ofExcept (if (y == 0) = true then .error divideByZero else do return .long (← op x y)))
    (hr : r ∈ ways name (do return .long (← op x y)) [x, y]) : r = Run.ofExcept (do return .long (← op x y)) := by
  refine eq_of_mem_ways hm (List.forall_mem_singleton.mpr ⟨_, hcall, ?_⟩) hr
  split
  case isTrue hy => rw [beq_iff_eq.mp hy, hop]; rfl
  case isFalse => cases op x y <;> rfl

theorem eq_quotient (hr : r ∈ ways "quotient" (quotient (.long x) (.long y)) [x, y]) :
    r = Run.ofExcept (quotient (.long x) (.long y)) :=
  eq_of_mem_ways_guarded quotLong (fun _ => rfl) rfl rfl hr

theorem eq_remainder (hr : r ∈ ways "remainder" (remainder (.long x) (.long y)) [x, y]) :
    r = Run.ofExcept (remainder (.long x) (.long y)) :=
  eq_of_mem_ways_guarded remLong (fun _ => rfl) rfl rfl hr

theorem eq_modulo (hr : r ∈ ways "modulo" (modulo (.long x) (.long y)) [x, y]) :
    r = Run.ofExcept (modulo (.long x) (.long y)) :=
  eq_of_mem_ways (l := []) rfl (by simp) hr

theorem eq_divide (hr : r ∈ ways "divide" (divide (.long x) (.long y)) [x, y]) :
    r = Run.ofExcept (divide (.long x) (.long y)) :=
  eq_of_mem_ways (l := []) rfl (by simp) hr

theorem quotient_exact (hy : y ≠ 0) (hr : r ∈ ways "quotient" (quotient (.long x) (.long y)) [x, y]) :
    Exact r (x.toInt.tdiv y.toInt) := by
  rw [eq_quotient hr, quotient_eq hy]
  exact exact_fit _

theorem isRemainder (hy : y ≠ 0) : IsRemainder x y (.ofInt (x.toInt.tmod y.toInt)) := by
  have hlt : (x.toInt.tmod y.toInt).natAbs < y.toInt.natAbs := by
    rw [Int.natAbs_tmod]
    exact Nat.mod_lt _ (Int.natAbs_pos.mpr (toInt_ne_zero hy))
  refine ⟨?_, ?_, fun r hr q hq => ?_⟩ <;> rw [toInt_ofInt_of_lt hlt]
  · exact hlt
  · by_cases hdvd : y.toInt ∣ x.toInt
    · exact .inl (Int.dvd_iff_tmod_eq_zero.mp hdvd)
    · exact .inr ((Int.sign_tmod _ _).trans (if_neg hdvd))
  · have hexact := quotient_exact hy hr
    have hq' : q.toInt = x.toInt.tdiv y.toInt := by
      by_cases hfit : Fits (x.toInt.tdiv y.toInt)
      · obtain ⟨z, hz, hgives⟩ := hexact.gives hfit
        cases hq.unique hgives
        exact hz
      · exact absurd (hexact.throws hfit) hq.not_throws
    rw [hq', Int.mul_tdiv_add_tmod]

theorem isModulus (hy : y ≠ 0) : IsModulus x y (.ofInt (x.toInt.fmod y.toInt)) := by
  have hbounds : (x.toInt.fmod y.toInt).natAbs < y.toInt.natAbs ∧ SignOf (x.toInt.fmod y.toInt) y.toInt := by
    unfold SignOf
    rcases Int.lt_or_gt_of_ne (toInt_ne_zero hy) with hneg | hpos
    · obtain ⟨-, hlt, hle⟩ := (Int.fdiv_fmod_unique' hneg).mp ⟨rfl, Eq.refl (x.toInt.fmod y.toInt)⟩
      refine ⟨by omega, hle.eq_or_lt.imp id fun h => ?_⟩
      rw [Int.sign_eq_neg_one_of_neg h, Int.sign_eq_neg_one_of_neg hneg]
    · obtain ⟨-, hle, hlt⟩ := (Int.fdiv_fmod_unique hpos).mp ⟨rfl, Eq.refl (x.toInt.fmod y.toInt)⟩
      refine ⟨by omega, hle.eq_or_lt.imp Eq.symm fun h => ?_⟩
      rw [Int.sign_eq_one_of_pos h, Int.sign_eq_one_of_pos hpos]
  obtain ⟨hlt, hsign⟩ := hbounds
  refine ⟨?_, ?_, ?_⟩ <;> rw [toInt_ofInt_of_lt hlt]
  · exact hlt
  · exact hsign
  · exact Int.modEq_iff_dvd.mpr Int.dvd_self_sub_fmod

theorem fits_tdiv (hy : y ≠ 0) (h : ¬ (x = Int64.minValue ∧ y = -1)) : Fits (x.toInt.tdiv y.toInt) := by
  have hx := x.le_toInt
  have hx' := x.toInt_lt
  have hle := Int.natAbs_tdiv_le_natAbs x.toInt y.toInt
  have hne : x.toInt.tdiv y.toInt ≠ 2 ^ 63 := by
    intro heq
    have hmin : x.toInt = -2 ^ 63 := by omega
    have hmul : (x.toInt.tdiv y.toInt).natAbs * y.toInt.natAbs ≤ x.toInt.natAbs := by
      rw [Int.natAbs_tdiv]
      exact Nat.div_mul_le_self _ _
    have hy0 := toInt_ne_zero hy
    have hone : y.toInt = 1 ∨ y.toInt = -1 := by
      rw [heq, hmin] at hmul
      norm_num at hmul
      omega
    rcases hone with hone | hone
    · rw [hone, Int.tdiv_one] at heq
      omega
    · exact h ⟨Int64.toInt_inj.mp hmin, Int64.toInt_inj.mp hone⟩
  constructor <;> omega

/-- The quotient of the least long by minus one is the only one that is too large. -/
theorem fits_tdiv_iff : Fits (x.toInt.tdiv y.toInt) ↔ ¬ (x = Int64.minValue ∧ y = -1) := by
  constructor
  · rintro hfits ⟨rfl, rfl⟩
    exact absurd hfits.2 (by decide)
  · intro h
    rcases eq_or_ne y 0 with rfl | hy
    · rw [Int64.toInt_zero, Int.tdiv_zero]
      exact ⟨by decide, by decide⟩
    · exact fits_tdiv hy h

theorem isFatal_iff : isFatal (.long x) (.long y) = true ↔ x = Int64.minValue ∧ y = -1 := by
  change (x == Int64.minValue && y == -1) = true ↔ _
  rw [Bool.and_eq_true, beq_iff_eq, beq_iff_eq]

/-- **The machine gives up on a division of longs just if its quotient is not a long.** -/
theorem unlessFatal_long (x y : Int64) (e : Except Failure Value) :
    (Fits (x.toInt.tdiv y.toInt) → unlessFatal (.long x) (.long y) e = Run.ofExcept e) ∧
    (¬ Fits (x.toInt.tdiv y.toInt) → unlessFatal (.long x) (.long y) e = Run.abort) := by
  rw [fits_tdiv_iff, not_not]
  exact ⟨fun h => if_neg fun hfatal => h (isFatal_iff.mp hfatal), fun h => if_pos (isFatal_iff.mpr h)⟩

/-! ## Order -/

/-- Both ways decide the same. -/
theorem gives_of_mem_ways {m : HostMember} {b : Bool} (hm : longOverloads name xs.length = [m])
    (hcall : Host.call m.op (xs.map .long) = Run.ofExcept (.ok (.bool b))) (hr : r ∈ ways name (.ok (.bool b)) xs) :
    Gives r (.bool b) := by
  rw [eq_of_mem_ways hm (List.forall_mem_singleton.mpr ⟨_, hcall, rfl⟩) hr]
  exact gives_ofExcept _

theorem lt_long (x y : Int64) : lt (.long x) (.long y) = .ok (x.toInt < y.toInt) := by
  change Except.ok (compare x.toInt y.toInt).isLT = _
  congr 1
  rw [Bool.eq_iff_iff, Ordering.isLT_iff_eq_lt, compare_lt_iff_lt, decide_eq_true_iff]

theorem lte_long (x y : Int64) : lte (.long x) (.long y) = .ok (x.toInt ≤ y.toInt) := by
  change Except.ok (compare x.toInt y.toInt).isLE = _
  congr 1
  rw [Bool.eq_iff_iff, Ordering.isLE_iff_ne_gt, ← ne_eq, compare_le_iff_le, decide_eq_true_iff]

theorem gt_long (x y : Int64) : gt (.long x) (.long y) = .ok (x.toInt > y.toInt) := by
  change Except.ok (compare x.toInt y.toInt).isGT = _
  congr 1
  rw [Bool.eq_iff_iff, Ordering.isGT_iff_eq_gt, compare_gt_iff_gt, decide_eq_true_iff]

theorem gte_long (x y : Int64) : gte (.long x) (.long y) = .ok (x.toInt ≥ y.toInt) := by
  change Except.ok (compare x.toInt y.toInt).isGE = _
  congr 1
  rw [Bool.eq_iff_iff, Ordering.isGE_iff_ne_lt, ← ne_eq, compare_ge_iff_ge, decide_eq_true_iff]

theorem beq_long (x y : Int64) : (x == y) = decide (x.toInt = y.toInt) := by
  simp [Int64.toInt_inj, beq_eq_decide]

theorem isZero_long (x : Int64) : isZero (.long x) = .ok (x.toInt = 0) :=
  congrArg Except.ok (Double.ofInt_beq_zero x.toInt)

theorem isPos_long (x : Int64) : isPos (.long x) = .ok (0 < x.toInt) :=
  congrArg Except.ok (decide_eq_decide.mpr (Double.ofInt_pos_iff x.toInt))

theorem isNeg_long (x : Int64) : isNeg (.long x) = .ok (x.toInt < 0) :=
  congrArg Except.ok (decide_eq_decide.mpr (Double.ofInt_neg_iff x.toInt))

theorem longArithmetic (x y : Int64) : LongArithmetic x y where
  add _ := exact_of_mem_ways rfl rfl
  minus _ := exact_of_mem_ways rfl rfl
  multiply _ := exact_of_mem_ways rfl rfl
  inc _ := exact_of_mem_ways rfl rfl
  dec _ := exact_of_mem_ways rfl rfl
  quotient r hr := by
    rcases eq_or_ne y 0 with rfl | hy
    · rw [eq_quotient hr]
      exact ⟨guarded_zero (throws_ofExcept _), absurd rfl⟩
    · exact ⟨(quotient_exact hy hr).guarded hy, fun _ => quotient_exact hy hr⟩
  remainder r hr := by
    rw [eq_remainder hr]
    rcases eq_or_ne y 0 with rfl | hy
    · exact ⟨guarded_zero (throws_ofExcept _), absurd rfl⟩
    · rw [remainder_eq hy]
      exact ⟨guarded_of_gives hy (gives_ofExcept _), fun _ => ⟨_, gives_ofExcept _, isRemainder hy⟩⟩
  modulo _ r hr := by
    rw [eq_modulo hr]
    rcases eq_or_ne y 0 with rfl | hy
    · exact ⟨guarded_zero (throws_ofExcept _), absurd rfl⟩
    · rw [modulo_eq hy]
      exact ⟨guarded_of_gives hy (gives_ofExcept _), fun _ => ⟨_, gives_ofExcept _, isModulus hy⟩⟩
  divide h r hr := by
    rw [eq_divide hr]
    rcases eq_or_ne y 0 with rfl | hy
    · exact ⟨guarded_zero (throws_ofExcept _), absurd rfl⟩
    · rw [divide_eq hy]
      split
      case isTrue hdvd =>
        rw [quotient_eq hy]
        obtain ⟨z, hz, hgives⟩ := (exact_fit (x.toInt.tdiv y.toInt)).gives (fits_tdiv_iff.mpr h)
        refine ⟨guarded_of_gives hy hgives, fun _ => ⟨fun _ => ⟨z, hgives, ?_⟩, absurd hdvd⟩⟩
        rw [hz, Int.mul_tdiv_cancel' hdvd]
      case isFalse hdvd =>
        exact ⟨guarded_of_gives hy (gives_ofExcept _), fun _ => ⟨fun h => absurd h hdvd, fun _ => ⟨_, gives_ofExcept _⟩⟩⟩
  lt := by
    rw [lt_long]
    exact fun _ => gives_of_mem_ways rfl rfl
  lte := by
    rw [lte_long]
    exact fun _ => gives_of_mem_ways rfl rfl
  gt := by
    rw [gt_long]
    exact fun _ => gives_of_mem_ways rfl rfl
  gte := by
    rw [gte_long]
    exact fun _ => gives_of_mem_ways rfl rfl
  equiv := by
    rw [← beq_long]
    exact fun _ => gives_of_mem_ways rfl rfl
  isZero := by
    rw [isZero_long]
    exact fun _ => gives_of_mem_ways rfl (congrArg (fun b => Run.ofExcept (.ok (Slot.bool b))) (beq_long x 0))
  isPos := by
    rw [isPos_long]
    exact fun _ => gives_of_mem_ways rfl rfl
  isNeg := by
    rw [isNeg_long]
    exact fun _ => gives_of_mem_ways rfl rfl

end LispMachine.Numbers

/-!
# Finite doubles as exact fractions

A finite double is `± mantissa · 2 ^ exponent`.  Everything that has to be exact (printing,
reading, remainders, truncation) works on these three parts with unbounded natural numbers, and
only the last step goes back to the 64-bit word.
-/
namespace LispMachine.Double

/-- A finite double: `mantissa · 2 ^ exponent`, negated if `negative`. -/
structure Parts where
  negative : Bool
  mantissa : Nat
  exponent : Int

inductive Kind where
  | nan
  | infinite (negative : Bool)
  | finite (parts : Parts)

/-- The exponent of the subnormal numbers, the least there is. -/
def minExponent : Int := -1074

def classify (d : Float) : Kind :=
  let bits := d.toBits.toNat
  let negative := bits / Nat.pow 2 63 == 1
  let field := bits / Nat.pow 2 52 % Nat.pow 2 11
  let fraction := bits % Nat.pow 2 52
  if field == 2047 then
    if fraction == 0 then .infinite negative else .nan
  else if field == 0 then .finite ⟨negative, fraction, minExponent⟩
  else .finite ⟨negative, fraction + Nat.pow 2 52, Int.ofNat field - 1075⟩

/-- The digits before the binary point. -/
def Parts.whole (p : Parts) : Nat :=
  if p.exponent ≥ 0 then p.mantissa * Nat.pow 2 p.exponent.toNat
  else p.mantissa / Nat.pow 2 (-p.exponent).toNat

def Parts.isWhole (p : Parts) : Bool :=
  p.exponent ≥ 0 || p.mantissa % Nat.pow 2 (-p.exponent).toNat == 0

def isIntegral (d : Float) : Bool :=
  match classify d with
  | .finite p => p.isWhole
  | _ => false

/-- The binary exponent at which `num / den` has a 53-bit whole part, never below the subnormals. -/
def scaleFor (num den : Nat) : Int :=
  let guess : Int := Int.ofNat num.log2 - Int.ofNat den.log2 - 52
  -- the whole part of `num / den · 2 ^ -guess` has 52, 53 or 54 bits
  let lower := guess - 1
  let wholeAt (q : Int) : Nat :=
    if q ≥ 0 then num / (den * Nat.pow 2 q.toNat) else num * Nat.pow 2 (-q).toNat / den
  let q := if wholeAt lower < Nat.pow 2 53 then lower
    else if wholeAt guess < Nat.pow 2 53 then guess else guess + 1
  if q < minExponent then minExponent else q

/-- The whole number nearest to `num / den`, the even one of two. -/
def roundDiv (num den : Nat) : Nat :=
  let whole := num / den
  let rest := 2 * (num % den)
  if rest < den then whole
  else if rest > den then whole + 1
  else if whole % 2 == 0 then whole else whole + 1

/-- The bits of the double nearest to the positive fraction `num / den`; too large is infinity. -/
def nearestBits (num den : Nat) : Nat :=
  if num == 0 then 0
  else
    let q := scaleFor num den
    let m := if q ≥ 0 then roundDiv num (den * Nat.pow 2 q.toNat) else roundDiv (num * Nat.pow 2 (-q).toNat) den
    let bits := if m < Nat.pow 2 52 then m else (q + 1075).toNat * Nat.pow 2 52 + (m - Nat.pow 2 52)
    min bits (2047 * Nat.pow 2 52)

/-- The double nearest to `± num / den`. -/
def nearest (negative : Bool) (num den : Nat) : Float :=
  let bits := nearestBits num den
  Float.ofBits (UInt64.ofNat (if negative then bits + Nat.pow 2 63 else bits))

def ofInt (n : Int) : Float := nearest (n < 0) n.natAbs 1

end LispMachine.Double

import LispMachine.Double.Decode
/-!
# Operations on doubles that are carried out exactly

Truncation and the remainder of a division are computed on the exact fractions, so no rounding
enters before the result, and the result of either is always a double.
-/
namespace LispMachine.Double

def isNaN (d : Float) : Bool := !(d == d)

/-- The part before the point, with the sign of the argument. -/
def truncate (d : Float) : Float :=
  match classify d with
  | .finite p => nearest p.negative p.whole 1
  | _ => d

/-- The remainder of a division whose quotient is rounded toward zero; it has the sign of the
dividend. -/
def remainder (x y : Float) : Float :=
  match classify x, classify y with
  | .finite p, .finite q =>
    if q.mantissa == 0 then 0.0 / 0.0
    else
      let e := min p.exponent q.exponent
      let a := p.mantissa * Nat.pow 2 (p.exponent - e).toNat
      let b := q.mantissa * Nat.pow 2 (q.exponent - e).toNat
      let r := a % b
      if e ≥ 0 then nearest p.negative (r * Nat.pow 2 e.toNat) 1
      else nearest p.negative r (Nat.pow 2 (-e).toNat)
  | .finite _, .infinite _ => x
  | _, _ => 0.0 / 0.0

/-- The larger of two doubles; one that is not a number does not count. -/
def maximum (x y : Float) : Float := if isNaN x then y else if isNaN y then x else if x < y then y else x

/-- The smaller of two doubles; one that is not a number does not count. -/
def minimum (x y : Float) : Float := if isNaN x then y else if isNaN y then x else if y < x then y else x

end LispMachine.Double

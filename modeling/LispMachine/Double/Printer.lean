import LispMachine.Double.Decode
/-!
# Doubles as text

`plain` writes the fewest decimal digits that read back as the same double, in positional notation
whatever the size.  `render` is the language's own spelling: a double without a fraction is written
out exactly and ends in `.0`, every other one as `plain` writes it.
-/
namespace LispMachine.Double

/-- The half-way points around a positive double, as numerators over `den`; `closed` says whether
they still round to it. -/
structure Interval where
  low : Nat
  value : Nat
  high : Nat
  den : Nat
  closed : Bool

/-- All reals that round to `mantissa · 2 ^ exponent`.  Just above a power of two the neighbour
below is only half as far as the one above. -/
def Parts.interval (p : Parts) : Interval :=
  let narrow := p.mantissa == Nat.pow 2 52 && p.exponent > minExponent
  let e := p.exponent - 2
  let up := if e ≥ 0 then Nat.pow 2 e.toNat else 1
  { low := (4 * p.mantissa - (if narrow then 1 else 2)) * up
    value := 4 * p.mantissa * up
    high := (4 * p.mantissa + 2) * up
    den := if e ≥ 0 then 1 else Nat.pow 2 (-e).toNat
    closed := p.mantissa % 2 == 0 }

/-- Whether `digits · 10 ^ place` rounds to the double. -/
def Interval.accepts (i : Interval) (digits : Nat) (place : Int) : Bool :=
  let up := if place ≥ 0 then Nat.pow 10 place.toNat else 1
  let down := if place ≥ 0 then 1 else Nat.pow 10 (-place).toNat
  let x := digits * up * i.den
  if i.closed then i.low * down ≤ x && x ≤ i.high * down
  else i.low * down < x && x < i.high * down

structure Decimal where
  digits : Nat
  place : Int

/-- The neighbour of the double on the grid of multiples of `10 ^ place` that reads back: the nearer
of two, and of two equally near the larger. -/
def Interval.onGrid? (i : Interval) (place : Int) : Option Decimal :=
  let up := if place ≥ 0 then Nat.pow 10 place.toNat else 1
  let down := if place ≥ 0 then 1 else Nat.pow 10 (-place).toNat
  let num := i.value * down
  let den := i.den * up
  let below := num / den
  let above := below + 1
  match i.accepts below place && below != 0, i.accepts above place with
  | true, true => some ⟨if 2 * (num % den) < den then below else above, place⟩
  | true, false => some ⟨below, place⟩
  | false, true => some ⟨above, place⟩
  | false, false => none

/-- How many zeros follow the point before the first digit of `value / den`, a fraction below one;
the first argument bounds the search. -/
def leadingZeros : Nat → Nat → Nat → Nat
  | 0, _, _ => 0
  | fuel + 1, value, den =>
    if value * 10 ≥ den then 0 else leadingZeros fuel (value * 10) den + 1

/-- The number of decimal digits before the point; zero or less counts the zeros after it. -/
def Interval.magnitude (i : Interval) : Int :=
  if i.value ≥ i.den then Int.ofNat (Nat.toDigits 10 (i.value / i.den)).length
  else Int.negOfNat (leadingZeros 330 i.value i.den)

/-- The first of the grids from `place` downward that holds a decimal which reads back. -/
def Interval.firstOnGrids (i : Interval) : Nat → Int → Decimal
  | 0, place => ⟨0, place⟩
  | fuel + 1, place =>
    match i.onGrid? place with
    | some d => d
    | none => i.firstOnGrids fuel (place - 1)

/-- The shortest decimal that reads back; seventeen digits always do. -/
def Interval.shortest (i : Interval) : Decimal := i.firstOnGrids 20 i.magnitude

def zeros (n : Nat) : String := String.ofList (List.replicate n '0')

/-- Positional notation, without an exponent and without a needless point. -/
def Decimal.positional (d : Decimal) : String :=
  let digits := (Nat.toDigits 10 d.digits)
  if d.place ≥ 0 then String.ofList digits ++ zeros d.place.toNat
  else
    let after := (-d.place).toNat
    if digits.length > after then
      let before := digits.length - after
      String.ofList (digits.take before) ++ "." ++ String.ofList (digits.drop before)
    else "0." ++ zeros (after - digits.length) ++ String.ofList digits

def sign (negative : Bool) : String := if negative then "-" else ""

/-- The fewest digits that read back, in positional notation. -/
def plain (d : Float) : String :=
  match classify d with
  | .nan => "NaN"
  | .infinite negative => sign negative ++ "inf"
  | .finite p =>
    sign p.negative ++ (if p.mantissa == 0 then "0" else p.interval.shortest.positional)

/-- The language's spelling of a double: exact and with `.0` when there is no fraction. -/
def render (d : Float) : String :=
  match classify d with
  | .finite p =>
    if p.isWhole then sign p.negative ++ toString p.whole ++ ".0" else plain d
  | _ => plain d

end LispMachine.Double

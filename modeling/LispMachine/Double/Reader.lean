import LispMachine.Double.Decode
/-!
# Reading decimals

The decimal grammar is an optional sign, digits with at most one point among or around them (at
least one digit in all), and an optional exponent.  The words for infinity and for "not a number"
are read too, in any case.  The result is the double nearest to the decimal.
-/
namespace LispMachine.Double

def digitsValue (ds : List Char) : Nat := ds.foldl (fun n c => n * 10 + (c.toNat - '0'.toNat)) 0

def spanDigits (cs : List Char) : List Char × List Char := cs.span Char.isDigit

def spanSign : List Char → Bool × List Char
  | '-' :: cs => (true, cs)
  | '+' :: cs => (false, cs)
  | cs => (false, cs)

/-- The exponent after the digits: none at all, or a mark, a sign and one or more digits. -/
def readExponent? : List Char → Option Int
  | [] => some 0
  | c :: cs =>
    if c == 'e' || c == 'E' then
      let (negative, cs) := spanSign cs
      match spanDigits cs with
      | ([], _) => none
      | (ds, []) => some (if negative then -Int.ofNat (digitsValue ds) else Int.ofNat (digitsValue ds))
      | _ => none
    else none

/-- The double nearest to `± digits · 10 ^ place`.  Decimals far outside the range of doubles are
settled by their size alone. -/
def ofDecimal (negative : Bool) (digits : Nat) (place : Int) : Float :=
  let size := Int.ofNat (Nat.toDigits 10 digits).length + place
  if digits == 0 || size < -400 then nearest negative 0 1
  else if size > 400 then nearest negative (Nat.pow 2 1100) 1
  else if place ≥ 0 then nearest negative (digits * Nat.pow 10 place.toNat) 1
  else nearest negative digits (Nat.pow 10 (-place).toNat)

def infinity (negative : Bool) : Float := nearest negative (Nat.pow 2 1100) 1

def nan : Float := Float.ofBits 0x7ff8000000000000

def readUnsigned? (negative : Bool) (cs : List Char) : Option Float :=
  let word := String.ofList (cs.map Char.toLower)
  if word == "inf" || word == "infinity" then some (infinity negative)
  else if word == "nan" then some nan
  else
    let (whole, rest) := spanDigits cs
    let (fraction, rest) : List Char × List Char :=
      match rest with
      | '.' :: rest => spanDigits rest
      | _ => ([], rest)
    if whole.isEmpty && fraction.isEmpty then none
    else
      (readExponent? rest).map fun e =>
        ofDecimal negative (digitsValue (whole ++ fraction)) (e - Int.ofNat fraction.length)

def read? (text : String) : Option Float :=
  let (negative, cs) := spanSign text.toList
  readUnsigned? negative cs

end LispMachine.Double

import LispMachine.Double.Arithmetic
import LispMachine.Run
/-!
# Arithmetic on boxed numbers

Two longs give a long, and a result that does not fit into 64 bits is a failure rather than a wrapped
number.  If either operand is a double the operation is carried out on doubles.
-/
namespace LispMachine.Numbers

inductive Num where
  | long (n : Int64)
  | double (d : Float)

namespace Num

def ofValue : Value → Except Failure Num
  | .long n => .ok (.long n)
  | .double d => .ok (.double d)
  | v => .error (.classCast v "Number")

def toFloat : Num → Float
  | .long n => Double.ofInt n.toInt
  | .double d => d

end Num

def overflow : Failure := .arithmetic "integer overflow"

def divideByZero : Failure := .arithmetic "Divide by zero"

/-! ## 64-bit arithmetic with overflow noticed -/

/-- The long with this value, if there is one. -/
def fit (n : Int) : Except Failure Int64 :=
  if Int64.minValue.toInt ≤ n ∧ n ≤ Int64.maxValue.toInt then .ok (Int64.ofInt n) else .error overflow

def addLong (a b : Int64) : Except Failure Int64 := fit (a.toInt + b.toInt)

def subLong (a b : Int64) : Except Failure Int64 := fit (a.toInt - b.toInt)

def mulLong (a b : Int64) : Except Failure Int64 := fit (a.toInt * b.toInt)

/-- Division rounded toward zero. -/
def quotLong (a b : Int64) : Except Failure Int64 :=
  if b == 0 then .error divideByZero else fit (a.toInt.tdiv b.toInt)

/-- The remainder of `quotLong`; it has the sign of the dividend and always fits. -/
def remLong (a b : Int64) : Except Failure Int64 :=
  if b == 0 then .error divideByZero else .ok (Int64.ofInt (a.toInt.tmod b.toInt))

/-- The euclidean remainder is never negative; a negative divisor is added to it, so that it has the divisor's sign. -/
def modLong (a b : Int64) : Except Failure Int64 :=
  if b == 0 then .error divideByZero
  else
    let m := Int64.ofInt (a.toInt % b.toInt)
    .ok (if b < 0 && m != 0 then m + b else m)

/-! ## Boxed operations -/

def binary (long : Int64 → Int64 → Except Failure Int64) (double : Float → Float → Float)
    (a b : Value) : Except Failure Value := do
  match ← Num.ofValue a, ← Num.ofValue b with
  | .long x, .long y => return .long (← long x y)
  | x, y => return .double (double x.toFloat y.toFloat)

def add : Value → Value → Except Failure Value := binary addLong (· + ·)

def minus : Value → Value → Except Failure Value := binary subLong (· - ·)

def multiply : Value → Value → Except Failure Value := binary mulLong (· * ·)

/-- An exact quotient of two longs is a long, any other a double. -/
def divide (a b : Value) : Except Failure Value := do
  match ← Num.ofValue a, ← Num.ofValue b with
  | .long x, .long y =>
    if y == 0 then .error divideByZero
    else if x.toInt.tmod y.toInt == 0 then return .long (← quotLong x y)
    else return .double (Double.ofInt x.toInt / Double.ofInt y.toInt)
  | x, y => return .double (x.toFloat / y.toFloat)

def quotient : Value → Value → Except Failure Value :=
  binary quotLong (fun x y => Double.truncate (x / y))

def remainder : Value → Value → Except Failure Value := binary remLong Double.remainder

def modulo : Value → Value → Except Failure Value :=
  binary modLong (fun x y => x - y * (x / y).floor)

/-- The only longs whose quotient has more than 64 bits. -/
def isFatal : Value → Value → Bool
  | .long x, .long y => x == Int64.minValue && y == -1
  | _, _ => false

/-- The result of `divide` or `modulo`.  Both divide the longs before they look for an overflow, and the machine does
not survive that. -/
def unlessFatal (a b : Value) (x : Except Failure Value) : Run Value :=
  if isFatal a b then Run.abort else Run.ofExcept x

def compareLong (a b : Int64) : Ordering := compare a.toInt b.toInt

/-- A comparison that cannot be decided counts as "less". -/
def compareDouble (x y : Float) : Ordering :=
  if x == y then .eq else if x > y then .gt else .lt

def order (a b : Value) : Except Failure Ordering := do
  match ← Num.ofValue a, ← Num.ofValue b with
  | .long x, .long y => return compareLong x y
  | x, y => return compareDouble x.toFloat y.toFloat

def lt (a b : Value) : Except Failure Bool := (order a b).map (·.isLT)

def lte (a b : Value) : Except Failure Bool := (order a b).map (·.isLE)

def gt (a b : Value) : Except Failure Bool := (order a b).map (·.isGT)

def gte (a b : Value) : Except Failure Bool := (order a b).map (·.isGE)

def numEquiv (a b : Value) : Except Failure Bool := do
  match ← Num.ofValue a, ← Num.ofValue b with
  | .long x, .long y => return x == y
  | x, y => return x.toFloat == y.toFloat

def inc (a : Value) : Except Failure Value := add a (.long 1)

def dec (a : Value) : Except Failure Value := minus a (.long 1)

def isZero (a : Value) : Except Failure Bool := return (← Num.ofValue a).toFloat == 0.0

def isPos (a : Value) : Except Failure Bool := return (← Num.ofValue a).toFloat > 0.0

def isNeg (a : Value) : Except Failure Bool := return (← Num.ofValue a).toFloat < 0.0

end LispMachine.Numbers

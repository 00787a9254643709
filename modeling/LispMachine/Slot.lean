import LispMachine.Double.Decode
import LispMachine.Failure
import LispMachine.Prim
/-!
# Slots

A slot of the operand stack or of the local variables holds a boxed value or an unboxed primitive.
Conversions between numbers never fail: what does not fit is cut to the nearest bound when it comes
from a fraction, and to the low bits when it comes from a wider whole number.
-/
namespace LispMachine

inductive Slot where
  | obj (v : Value)
  | long (n : Int64)
  | double (d : Float)
  | int (n : Int32)
  | float (x : Float32)
  | bool (b : Bool)
  deriving Inhabited

namespace Slot

/-- What an unused or cleared slot holds. -/
def empty : Slot := .obj .nil

def prim? : Slot → Option Prim
  | .obj _ => none
  | .long _ => some .long
  | .double _ => some .double
  | .int _ => some .int
  | .float _ => some .float
  | .bool _ => some .bool

/-- The boxed value; the narrow kinds widen. -/
def toValue : Slot → Value
  | .obj v => v
  | .long n => .long n
  | .double d => .double d
  | .int n => .long n.toInt64
  | .float x => .double x.toFloat
  | .bool b => .bool b

/-- A number as it is unboxed: exact if it is whole, and always as a double. -/
def numberOf (prim : Prim) : Value → Except Failure (Option Int64 × Float)
  | .long n => .ok (some n, Double.ofInt n.toInt)
  | .double d => .ok (none, d)
  | .char c =>
    if prim.isIntegral then .ok (some (Int64.ofNat c.toNat), c.toNat.toFloat)
    else .error (.classCast (.char c) "Number")
  | v => .error (.classCast v "Number")

def unbox (v : Value) (prim : Prim) : Except Failure Slot :=
  match prim with
  | .bool =>
    match v with
    | .bool b => .ok (.bool b)
    | other => .error (.classCast other "Boolean")
  | .long => do
    match ← numberOf .long v with
    | (some n, _) => return .long n
    | (none, d) => return .long d.toInt64
  | .int => do
    match ← numberOf .int v with
    | (some n, _) => return .int n.toInt32
    | (none, d) => return .int d.toInt32
  | .double => do return .double (← numberOf .double v).2
  | .float => do return .float (← numberOf .float v).2.toFloat32

/-- Conversion to another primitive kind; only truth values stand apart. -/
def convert : Slot → Prim → Except Failure Slot
  | .long n, .long => .ok (.long n)
  | .int n, .long => .ok (.long n.toInt64)
  | .long n, .int => .ok (.int n.toInt32)
  | .long n, .double => .ok (.double (Double.ofInt n.toInt))
  | .long n, .float => .ok (.float n.toFloat32)
  | .int n, .int => .ok (.int n)
  | .int n, .double => .ok (.double (Double.ofInt n.toInt))
  | .int n, .float => .ok (.float n.toFloat32)
  | .double d, .double => .ok (.double d)
  | .double d, .long => .ok (.long d.toInt64)
  | .double d, .int => .ok (.int d.toInt32)
  | .double d, .float => .ok (.float d.toFloat32)
  | .float x, .double => .ok (.double x.toFloat)
  | .float x, .float => .ok (.float x)
  | .float x, .long => .ok (.long x.toInt64)
  | .float x, .int => .ok (.int x.toInt32)
  | .bool b, .bool => .ok (.bool b)
  | .obj v, p => unbox v p
  | s, p => .error (.classCast s.toValue p.boxedClass)

def long? : Slot → Option Int64
  | .long n => some n
  | .int n => some n.toInt64
  | .obj (.long n) => some n
  | _ => none

def double? : Slot → Option Float
  | .double d => some d
  | .float x => some x.toFloat
  | .long n => some (Double.ofInt n.toInt)
  | .int n => some (Double.ofInt n.toInt)
  | .obj (.double d) => some d
  | .obj (.long n) => some (Double.ofInt n.toInt)
  | _ => none

def int? : Slot → Option Int32
  | .int n => some n
  | .long n => some n.toInt32
  | .obj (.long n) => some n.toInt32
  | _ => none

def bool? : Slot → Option Bool
  | .bool b => some b
  | .obj (.bool b) => some b
  | _ => none

end Slot

end LispMachine

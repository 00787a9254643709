import LispMachine.Run
import LispMachine.Core.Library
import LispMachine.Host.Call
/-!
# Frames

A frame is one activation of a method: its local slots, its operand stack with the top first, and
the next instruction.
-/
namespace LispMachine

structure Frame where
  unit : Nat
  method : Method
  this : Value
  locals : Array Slot
  stack : List Slot
  pc : Nat
  deriving Inhabited

namespace Frame

@[inline] def push (f : Frame) (s : Slot) : Frame := { f with stack := s :: f.stack }

@[inline] def pushValue (f : Frame) (v : Value) : Frame := f.push (.obj v)

def pop (f : Frame) : Except Failure (Slot × Frame) :=
  match f.stack with
  | s :: rest => .ok (s, { f with stack := rest })
  | [] => .error (.internal "stack underflow")

def popValue (f : Frame) : Except Failure (Value × Frame) := do
  let (s, f) ← f.pop
  return (s.toValue, f)

/-- So many slots, in the order in which they were pushed. -/
def popMany (f : Frame) (n : Nat) : Except Failure (List Slot × Frame) :=
  if f.stack.length < n then .error (.internal "stack underflow")
  else .ok ((f.stack.take n).reverse, { f with stack := f.stack.drop n })

def popValues (f : Frame) (n : Nat) : Except Failure (List Value × Frame) := do
  let (slots, f) ← f.popMany n
  return (slots.map Slot.toValue, f)

def getLocal (f : Frame) (slot : Nat) : Except Failure Slot :=
  match f.locals[slot]? with
  | some s => .ok s
  | none => .error (.internal "local out of range")

def setLocal (f : Frame) (slot : Nat) (s : Slot) : Except Failure Frame :=
  if slot < f.locals.size then .ok { f with locals := f.locals.modify slot fun _ => s }
  else .error (.internal "local out of range")

def goto (f : Frame) (l : Label) : Except Failure Frame :=
  match f.method.labelPc? l with
  | some pc => .ok { f with pc }
  | none => .error (.internal "unbound label")

def fieldsPlace (f : Frame) : Except Failure Nat :=
  match f.this with
  | .fn obj _ _ => .ok obj
  | .inst obj _ _ => .ok obj
  | _ => .error (.internal "no fields on this")

/-! ## Tables of the unit -/

def loaded (f : Frame) (w : World) : LoadedUnit := (w.units[f.unit]?).getD default

def constant (f : Frame) (w : World) (i : Nat) : Except Failure Value :=
  match (f.loaded w).constants[i]? with
  | some v => .ok v
  | none => .error (.internal "constant out of range")

def varAt (f : Frame) (w : World) (i : Nat) : Except Failure Nat := do
  match ← f.constant w i with
  | .var id _ => return id
  | _ => .error (.internal "constant is not a var")

def classAt (f : Frame) (w : World) (i : Nat) : Except Failure (ClassId × String) := do
  match ← f.constant w i with
  | .type id name => return (id, name)
  | _ => .error (.internal "constant is not a class")

def nameAt (f : Frame) (w : World) (i : Nat) : Except Failure String := do
  match ← f.constant w i with
  | .str s => return s
  | _ => .error (.internal "constant is not a member name")

def memberAt (f : Frame) (w : World) (i : Nat) : Except Failure HostMember :=
  match ((f.loaded w).hosts[i]?).join with
  | some m => .ok m
  | none => .error (.internal "constant is not a host member")

end Frame

end LispMachine

import LispMachine.Code.Unit
/-!
# Assembling a method

An assembly is a method in the making: instructions are added at its end, labels are created first
and bound to the next instruction later.
-/
namespace LispMachine

structure Assembly where
  name : String
  arity : Nat
  variadic : Bool
  params : List (Option Prim) := []
  ret : Option Prim := none
  code : Array Instr := #[]
  labels : Array (Option Nat) := #[]
  handlers : List Handler := []
  /-- The line table so far, the last entry first. -/
  lines : List (Nat × Nat) := []
  maxLocals : Nat
  deriving Inhabited

namespace Assembly

/-- Slot zero holds the receiver, and the parameters follow. -/
def start (name : String) (arity : Nat) (variadic : Bool) : Assembly :=
  { name, arity, variadic, maxLocals := arity + 1 + (if variadic then 1 else 0) }

def emit (a : Assembly) (i : Instr) : Assembly := { a with code := a.code.push i }

def newLabel (a : Assembly) : Label × Assembly :=
  (a.labels.size, { a with labels := a.labels.push none })

/-- Binds a label to the next instruction; an unknown label is ignored. -/
def mark (a : Assembly) (l : Label) : Assembly :=
  { a with labels := a.labels.modify l fun _ => some a.code.size }

def handler (a : Assembly) (h : Handler) : Assembly := { a with handlers := a.handlers ++ [h] }

/-- The instructions from here on stand in the given source line. -/
def line (a : Assembly) (n : Nat) : Assembly :=
  let pc := a.code.size
  match a.lines with
  | (start, last) :: rest =>
    if last == n then a
    else if start == pc then { a with lines := (start, n) :: rest }
    else { a with lines := (pc, n) :: a.lines }
  | [] => { a with lines := [(pc, n)] }

def touchLocal (a : Assembly) (slot : Nat) : Assembly :=
  { a with maxLocals := max a.maxLocals (slot + 1) }

def finish (a : Assembly) : Method :=
  { name := a.name, arity := a.arity, variadic := a.variadic, maxLocals := a.maxLocals,
    params := a.params, ret := a.ret, code := a.code, labels := a.labels, handlers := a.handlers,
    lines := a.lines.reverse }

end Assembly

end LispMachine

import LispMachine.Value.Basic
/-!
# Failures

An operation that cannot be carried out names the class of exception it raises and the message.
The exception itself is built when the failure reaches the running program.
-/
namespace LispMachine

structure Failure where
  type : ClassId
  message : String
  deriving DecidableEq, Repr

namespace Failure

def illegalArgument (message : String) : Failure := ⟨ClassId.illegalArgument, message⟩

def illegalState (message : String) : Failure := ⟨ClassId.illegalState, message⟩

def arithmetic (message : String) : Failure := ⟨ClassId.arithmetic, message⟩

def unsupported (message : String) : Failure := ⟨ClassId.unsupported, message⟩

def nullPointer (message : String) : Failure := ⟨ClassId.nullPointer, message⟩

def outOfBounds (index : Int) : Failure :=
  ⟨ClassId.indexOutOfBounds, "Index out of bounds: " ++ toString index⟩

def classCast (v : Value) (target : String) : Failure :=
  ⟨ClassId.classCast, v.className ++ " cannot be cast to " ++ target⟩

def arity (count : Nat) (name : String) : Failure :=
  ⟨ClassId.arity, "Wrong number of args (" ++ toString count ++ ") passed to: " ++ name⟩

/-- The machine was given code that it cannot run. -/
def internal (what : String) : Failure := illegalState ("internal VM error: " ++ what)

end Failure

end LispMachine

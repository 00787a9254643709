import LispMachine.Class.Table
import LispMachine.Value.Basic
/-!
# Protocols and dispatchers

A protocol maps a method and a class to a dispatcher, which says what a call does once the class of
its first argument is known.  Dispatchers are numbered, so that call sites can remember them.
-/
namespace LispMachine

structure Protocol where
  name : Symbol
  methods : List String
  /-- Method, class and dispatcher of each implementation; at most one for a method and a class. -/
  impls : List (String × ClassId × Nat) := []
  /-- Counts the registrations, so that call sites notice a change. -/
  generation : Nat := 0
  deriving Inhabited

namespace Protocol

def hasMethod (p : Protocol) (method : String) : Bool := p.methods.contains method

def register (p : Protocol) (method : String) (type : ClassId) (dispatcher : Nat) : Protocol :=
  { p with
    impls := (method, type, dispatcher) ::
      p.impls.filter (fun (m, t, _) => !(m == method && t == type))
    generation := p.generation + 1 }

/-- The implementation for exactly this class. -/
def implOn? (p : Protocol) (method : String) (type : ClassId) : Option Nat :=
  (p.impls.find? fun (m, t, _) => m == method && t == type).map (·.2.2)

/-- The implementation for the supertype with the largest number. -/
def inherited? (p : Protocol) (method : String) (type : ClassId) (classes : ClassTable) :
    Option Nat :=
  ((p.impls.filter fun (m, t, _) => m == method && classes.isSubclass type t).foldl
    (fun (best : Option (ClassId × Nat)) (_, t, d) =>
      match best with
      | some (t', d') => if t > t' then some (t, d) else some (t', d')
      | none => some (t, d)) none).map (·.2)

def find? (p : Protocol) (method : String) (type : ClassId) (classes : ClassTable) : Option Nat :=
  (p.implOn? method type).or (p.inherited? method type classes)

/-- Whether every method is implemented for the class. -/
def extends? (p : Protocol) (type : ClassId) (classes : ClassTable) : Bool :=
  p.methods.all fun m => (p.find? m type classes).isSome

end Protocol

/-- What a call does once the class of its receiver is known. -/
inductive Dispatcher where
  /-- Looks a keyword up in whatever the receiver is. -/
  | lookup
  /-- Reads a field of an instance. -/
  | field (index : Nat)
  /-- Calls a function with the receiver as its first argument. -/
  | fn (f : Value)
  /-- Runs a method body of a loaded unit on the receiver. -/
  | method (unit : Nat) (name : String)
  deriving Inhabited

structure DispatcherTable where
  entries : Array Dispatcher := #[.lookup]
  /-- The dispatchers that read a field, by class and field. -/
  fields : List ((ClassId × Nat) × Nat) := []

namespace DispatcherTable

def lookupId : Nat := 0

def register (t : DispatcherTable) (d : Dispatcher) : Nat × DispatcherTable :=
  (t.entries.size, { t with entries := t.entries.push d })

/-- The one dispatcher for a field of a class, made when it is first asked for. -/
def field (t : DispatcherTable) (type : ClassId) (index : Nat) : Nat × DispatcherTable :=
  match t.fields.lookup (type, index) with
  | some id => (id, t)
  | none =>
    let (id, t) := t.register (.field index)
    (id, { t with fields := ((type, index), id) :: t.fields })

end DispatcherTable

end LispMachine

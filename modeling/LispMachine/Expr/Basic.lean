import LispMachine.Code.Unit
/-!
# Expressions

What analysis makes of a form.  Locals, uses of locals and vars are named by number; what is known
about them is kept by the analysis.  Functions and types are already compiled: an expression holds
their unit and the uses of the locals that the unit captures.
-/
namespace LispMachine

structure LocalRef where
  binding : Nat
  /-- The number of this use. -/
  site : Nat
  prim : Option Prim
  tag : Option String
  deriving DecidableEq, Repr, Inhabited

structure VarRef where
  /-- The qualified name. -/
  name : Symbol
  var : Nat
  tag : Option String
  deriving DecidableEq, Repr, Inhabited

structure FieldRef where
  type : String
  index : Nat
  prim : Option Prim
  deriving DecidableEq, Repr

inductive AssignTarget where
  | var (v : VarRef)
  /-- A mutable field of the type whose method this is, named by its binding. -/
  | field (binding : Nat)
  deriving DecidableEq, Repr

inductive CaseTest where
  /-- All tests are small integers, and the key is the integer. -/
  | int
  /-- All tests are keywords: the key is the hash, and identity decides. -/
  | hashIdentity
  /-- The key is the hash, and equality decides. -/
  | hashEquiv
  deriving DecidableEq, Repr

def CaseTest.name : CaseTest → String
  | .int => "Int"
  | .hashIdentity => "HashIdentity"
  | .hashEquiv => "HashEquiv"

inductive CaseSwitch where
  | compact
  | sparse
  deriving DecidableEq, Repr

def CaseSwitch.name : CaseSwitch → String
  | .compact => "Compact"
  | .sparse => "Sparse"

/-- How a `case` finds a key: the shift and the mask are not used when the mask is zero. -/
structure CasePlan where
  test : CaseTest
  switch : CaseSwitch
  shift : Nat
  mask : UInt32
  deriving DecidableEq, Repr

inductive Expr where
  | nil
  | bool (b : Bool)
  | long (n : Int64)
  | double (d : Float)
  /-- Texts, characters, keywords and quoted data. -/
  | const (f : Form)
  /-- A class in the place of a value. -/
  | type (name : String)
  | vector (items : List Expr)
  | map (pairs : List (Expr × Expr))
  | set (items : List Expr)
  | local (r : LocalRef)
  | var (v : VarRef)
  /-- The var itself. -/
  | theVar (v : VarRef)
  | define (v : VarRef) (init : Option Expr) (info : Form)
  | assign (target : AssignTarget) (value : Expr)
  | cond (test yes no : Expr) (line : Nat)
  | seq (body : List Expr)
  | bind (isLoop : Bool) (bindings : List (Nat × Expr)) (body : Expr)
  | bindFns (bindings : List (Nat × Expr)) (body : Expr)
  | recur (targets : List Nat) (args : List Expr) (line : Nat)
  | fn (unit : CompiledUnit) (captures : List LocalRef) (line : Nat)
  /-- A call; `tail` marks the last one of its method. -/
  | invoke (f : Expr) (args : List Expr) (line : Nat) (tail : Bool)
  | keywordInvoke (k : Keyword) (target : Expr) (line : Nat)
  | protocolInvoke (v : VarRef) (args : List Expr) (line : Nat)
  | staticCall (className name : String) (member : Option HostRef) (args : List Expr) (line : Nat)
  | methodCall (target : Expr) (name : String) (member : Option HostRef) (args : List Expr) (line : Nat)
  | staticField (className : String) (member : HostRef)
  | fieldGet (target : Expr) (name : String) (field : Option FieldRef) (line : Nat)
  | construct (className : String) (member : Option HostRef) (declared : Bool) (args : List Expr)
      (line : Nat)
  | instanceOf (className : String) (value : Expr)
  | throw (value : Expr)
  /-- Each handler has the class it catches and the binding of the exception.  The first slot keeps
  the result while the cleanup runs, the second an exception on its way out. -/
  | attempt (body : Expr) (handlers : List (String × Nat × Expr)) (cleanup : Option Expr)
      (resultSlot thrownSlot : Nat)
  /-- The buckets are sorted by key; `temp` is the hidden local that holds the value. -/
  | case (value : Expr) (temp : Nat) (plan : CasePlan) (buckets : List (Int32 × List (Form × Expr)))
      (otherwise : Expr) (line : Nat)
  | deftype (name : String) (unit : CompiledUnit)
  | reify (name : String) (unit : CompiledUnit) (captures : List LocalRef) (line : Nat)

namespace Expr

instance : Inhabited Expr := ⟨.nil⟩

/-- The value is known and nothing happens on the way to it. -/
def isLiteral : Expr → Bool
  | .nil | .bool _ | .long _ | .double _ | .const _ => true
  | _ => false

end Expr

structure FnMethod where
  frame : Nat
  name : String
  /-- Bindings of the parameters, without the receiver. -/
  params : List Nat
  rest : Option Nat
  ret : Option Prim
  body : Expr
  line : Nat

end LispMachine

import LispMachine.Code.Instr
import LispMachine.Form.Printer
/-!
# Compiled units

A unit is a compiled function or type: its methods, the bindings it closes over, the tables its
instructions refer to, and the units nested in it.
-/
namespace LispMachine

/-- A range of instructions and where control goes when an exception leaves it.  The first entry of a
method that matches wins. -/
structure Handler where
  start : Label
  stop : Label
  target : Label
  /-- The class that is caught; none catches everything. -/
  catches : Option String
  deriving DecidableEq, Repr

structure Method where
  name : String
  /-- Parameters without the receiver, which is in slot zero, and without the rest parameter. -/
  arity : Nat
  variadic : Bool
  maxLocals : Nat
  /-- The primitive kinds of the parameters; none for objects. -/
  params : List (Option Prim)
  ret : Option Prim
  code : Array Instr
  /-- Where each label stands, once it is bound. -/
  labels : Array (Option Nat)
  handlers : List Handler
  /-- The first instruction of each source line, in ascending order. -/
  lines : List (Nat × Nat)
  deriving Inhabited

namespace Method

/-- The instruction that a label stands in front of. -/
def labelPc? (m : Method) (l : Label) : Option Nat := (m.labels[l]?).join

def lineAt? (m : Method) (pc : Nat) : Option Nat :=
  ((m.lines.takeWhile (·.1 ≤ pc)).getLast?).map (·.2)

def accepts (m : Method) (argc : Nat) : Bool :=
  if m.variadic then m.arity ≤ argc else argc == m.arity

end Method

inductive HostType where
  | prim (p : Prim)
  | object
  | named (name : String)
  | void
  deriving DecidableEq, Repr

namespace HostType

def prim? : HostType → Option Prim
  | .prim p => some p
  | _ => none

def render : HostType → String
  | .prim p => p.name
  | .object => "Object"
  | .named name => name
  | .void => "void"

end HostType

inductive HostKind where
  | staticMethod
  | method
  | staticField
  | constructor
  deriving DecidableEq, Repr

def HostKind.name : HostKind → String
  | .staticMethod => "StaticMethod"
  | .method => "Method"
  | .staticField => "StaticField"
  | .constructor => "Constructor"

def renderSignature (params : List HostType) (ret : HostType) : String :=
  "(" ++ ", ".intercalate (params.map HostType.render) ++ ") -> " ++ ret.render

/-- A host member, known by its full signature. -/
structure HostRef where
  className : String
  member : String
  kind : HostKind
  params : List HostType
  ret : HostType
  deriving DecidableEq, Repr

def HostRef.render (r : HostRef) : String :=
  r.className ++ "." ++ r.member ++ renderSignature r.params r.ret

inductive Constant where
  | form (f : Form)
  | var (name : Symbol)
  | type (name : String)
  | host (r : HostRef)

def Constant.render : Constant → String
  | .form f => f.render
  | .var name => "#\x27" ++ name.render
  | .type name => "type " ++ name
  | .host r => r.render

/-- A binding that a unit carries as a field. -/
structure Capture where
  name : String
  prim : Option Prim
  isMutable : Bool
  deriving DecidableEq, Repr

inductive UnitKind where
  | fn (once : Bool)
  /-- A declared type: its captures are its fields, and its methods implement the protocols. -/
  | type (name : String) (protocols : List Symbol)
  deriving Repr

structure CompiledUnit where
  name : String
  kind : UnitKind
  methods : List Method
  closed : List Capture
  constants : Array Constant
  keywordSites : Array Keyword
  protocolSites : Array Symbol
  children : List CompiledUnit

namespace CompiledUnit

instance : Inhabited CompiledUnit := ⟨⟨"", .fn false, [], [], #[], #[], #[], []⟩⟩

/-- The method that takes so many arguments; one without a rest parameter is preferred. -/
def methodFor? (u : CompiledUnit) (argc : Nat) : Option Method :=
  (u.methods.find? fun m => !m.variadic && m.accepts argc).or
    (u.methods.find? fun m => m.accepts argc)

end CompiledUnit

end LispMachine

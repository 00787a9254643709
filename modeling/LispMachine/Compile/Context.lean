import LispMachine.Compile.Diagnostic
import LispMachine.Compile.PathTree
import LispMachine.Run
/-!
# The state of an analysis

Analysis keeps tables of the locals, of their uses, of the method bodies and of the functions and
types under construction; their entries are named by number and never taken away.  What holds only
inside a form (the visible locals, the next free slot, the place in the text, what a `recur` rebinds)
is the scope, which is put back when the analysis of the form ends, by whatever way.

Analysis also changes the world: it makes vars, declares types and runs expanders.
-/
namespace LispMachine

/-- What becomes of the value of a form. -/
inductive Demand where
  /-- It is dropped. -/
  | statement
  /-- An enclosing form consumes it. -/
  | expression
  /-- It is the result of the method or of the loop body. -/
  | tail
  /-- The form is evaluated directly, without being compiled. -/
  | eval
  deriving DecidableEq, Repr

/-- The demand on the parts of a form whose values the form consumes. -/
def Demand.operand : Demand → Demand
  | .eval => .eval
  | _ => .expression

/-- The demand on the forms of a body but the last. -/
def Demand.leading : Demand → Demand
  | .eval => .eval
  | _ => .statement

structure Binding where
  name : Symbol
  /-- The slot in its own method; zero is the method's object. -/
  slot : Nat
  tag : Option String
  prim : Option Prim
  isArg : Bool
  method : Option Nat
  /-- The clear root in force when the binding was made. -/
  clearRoot : Option Nat
  canBeCleared : Bool := true
  /-- An assignable field of a declared type. -/
  isMutable : Bool := false
  /-- A `recur` passed a value of another kind to this primitive loop local. -/
  recurMismatch : Bool := false
  usedInHandler : Bool := false
  deriving Inhabited

structure UseSite where
  binding : Nat
  method : Option Nat
  path : Option Nat
  /-- Nothing reads the local after this use, so the slot may be emptied. -/
  shouldClear : Bool
  deriving Inhabited

structure MethodFrame where
  obj : Nat
  /-- The method around it. -/
  parent : Option Nat
  /-- The highest slot handed out. -/
  maxSlot : Nat := 0
  deriving Inhabited

inductive ObjectKind where
  | fn
  | type
  /-- Its fields are copies of captured locals and cannot be assigned. -/
  | reify
  deriving DecidableEq, Repr, Inhabited

structure ObjectFrame where
  name : String
  kind : ObjectKind
  once : Bool
  /-- The bindings it carries as fields, in the order of capture. -/
  closes : List Nat := []
  deriving Inhabited

def ObjectFrame.fieldIndex? (o : ObjectFrame) (binding : Nat) : Option Nat :=
  o.closes.findIdx? (· == binding)

structure Scope where
  method : Option Nat := none
  nextSlot : Nat := 0
  clearPath : Option Nat := none
  clearRoot : Option Nat := none
  /-- The locals that a `recur` in tail position rebinds. -/
  loopLocals : Option (List Nat) := none
  /-- Inside the body of a `try`. -/
  noRecur : Bool := false
  /-- Inside a `catch` or `finally` clause. -/
  inHandler : Bool := false
  /-- The result of this form leaves the method. -/
  methodReturn : Bool := false
  /-- The visible locals, the innermost first. -/
  env : List (Symbol × Nat) := []
  line : Nat := 0
  column : Nat := 0

structure Context where
  options : CompileOptions
  world : World
  scope : Scope := {}
  bindings : Array Binding := #[]
  uses : Array UseSite := #[]
  paths : PathTree := {}
  methods : Array MethodFrame := #[]
  objects : Array ObjectFrame := #[]
  /-- The warnings so far, the latest first. -/
  warnings : List Warning := []

namespace Context

def binding (c : Context) (id : Nat) : Binding := (c.bindings[id]?).getD default

def use (c : Context) (id : Nat) : UseSite := (c.uses[id]?).getD default

def method (c : Context) (id : Nat) : MethodFrame := (c.methods[id]?).getD default

def object (c : Context) (id : Nat) : ObjectFrame := (c.objects[id]?).getD default

def currentObject? (c : Context) : Option ObjectFrame :=
  c.scope.method.map fun m => c.object (c.method m).obj

def modifyBinding (c : Context) (id : Nat) (f : Binding → Binding) : Context :=
  { c with bindings := c.bindings.modify id f }

def modifyScope (c : Context) (f : Scope → Scope) : Context := { c with scope := f c.scope }

/-- Moves to the place of a form, if it has one. -/
def moveTo (c : Context) (f : Form) : Context :=
  match f.line? with
  | some line => c.modifyScope fun s => { s with line, column := f.column?.getD 0 }
  | none => c

end Context

/-! ## Analyses -/

inductive Result (α : Type) where
  | ok (a : α)
  | error (e : CompileError)
  /-- The allowance was used up, or a program gave up that was run on the way. -/
  | cut
  deriving Inhabited

def Analysis (α : Type) := Context → Result α × Context

namespace Analysis

@[inline] def pure {α : Type} (a : α) : Analysis α := fun c => (.ok a, c)

@[inline] def bind {α β : Type} (x : Analysis α) (f : α → Analysis β) : Analysis β := fun c =>
  match x c with
  | (.ok a, c) => f a c
  | (.error e, c) => (.error e, c)
  | (.cut, c) => (.cut, c)

@[inline] instance : Monad Analysis where
  pure := Analysis.pure
  bind := Analysis.bind

instance {α : Type} : Inhabited (Analysis α) := ⟨fun c => (.cut, c)⟩

def cut {α : Type} : Analysis α := fun c => (.cut, c)

def fail {α : Type} (f : CompileFault) : Analysis α := fun c => (.error { fault := f }, c)

def ofExcept {α : Type} : Except CompileFault α → Analysis α
  | .ok a => Analysis.pure a
  | .error f => fail f

@[inline] def read {α : Type} (f : Context → α) : Analysis α := fun c => (.ok (f c), c)

@[inline] def modify (f : Context → Context) : Analysis PUnit := fun c => (.ok ⟨⟩, f c)

/-- A change of the context that also gives a result. -/
@[inline] def change {α : Type} (f : Context → α × Context) : Analysis α := fun c =>
  let (a, c) := f c
  (.ok a, c)

@[inline] def scope : Analysis Scope := read (·.scope)

@[inline] def modifyScope (f : Scope → Scope) : Analysis PUnit := modify (·.modifyScope f)

@[inline] def world : Analysis World := read (·.world)

def changeWorld {α : Type} (f : World → α × World) : Analysis α := fun c =>
  let (a, w) := f c.world
  (.ok a, { c with world := w })

/-- Analyzes in a scope of its own: the scope is put back afterwards, also after an error. -/
def nested {α : Type} (x : Analysis α) : Analysis α := fun c =>
  let saved := c.scope
  let (r, c) := x c
  (r, { c with scope := saved })

/-- Gives an error the place at which this analysis starts, unless it has one. -/
def located {α : Type} (x : Analysis α) : Analysis α := fun c =>
  let line := c.scope.line
  let column := c.scope.column
  match x c with
  | (.error e, c) => (.error (e.locate c.options.file line column), c)
  | r => r

/-- Runs a program during the analysis; `f` says what a thrown value means, given its text. -/
def run {α : Type} (x : Run α) (f : Value → String → CompileFault) : Analysis α := fun c =>
  match x c.world with
  | (.value a, w) => (.ok a, { c with world := w })
  | (.thrown v, w) => (.error { fault := f v (w.describe v) }, { c with world := w })
  | (.cut, w) => (.cut, { c with world := w })

def load (u : CompiledUnit) : Analysis Nat := do
  match ← changeWorld (·.load u) with
  | .ok id => return id
  | .error e => fail (.notLoadable e)

def nextGensym : Analysis Nat := changeWorld fun w => (w.gensym, { w with gensym := w.gensym + 1 })

def warn (kind : WarningKind) (message : String) : Analysis PUnit := modify fun c =>
  { c with warnings :=
      ⟨kind, message, c.options.file, c.scope.line, c.scope.column⟩ :: c.warnings }

def forList {α β : Type} (f : α → Analysis β) : List α → Analysis (List β)
  | [] => return []
  | x :: xs => do
    let y ← f x
    return y :: (← forList f xs)

end Analysis

end LispMachine

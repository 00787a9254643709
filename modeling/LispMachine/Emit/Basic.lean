import LispMachine.Code.Assembly
import LispMachine.Compile.Context
import LispMachine.Emit.Pool
import LispMachine.Expr.Typing
/-!
# Emitting code

Every expression is emitted toward a destination: its value is dropped, left boxed on the stack, left
there unboxed, or returned.  Forms with several arms pass the destination on, so a returning arm
never jumps to a common exit.
-/
namespace LispMachine

inductive Dest where
  | statement
  | boxed
  | unboxed (p : Prim)
  | result
  deriving DecidableEq, Repr

def Dest.ofPrim : Option Prim → Dest
  | some p => .unboxed p
  | none => .boxed

structure EmitEnv where
  context : Context
  obj : Nat
  frame : Nat
  /-- The declared kind of the result; everything that is returned is converted to it. -/
  ret : Option Prim
  /-- Where a `recur` goes: the innermost loop, or the start of the method. -/
  loopHead : Label

structure Emission where
  pool : Pool
  code : Assembly
  /-- Where the last label was bound. -/
  markedAt : Option Nat := none

abbrev Emit := StateT Emission (Except CompileFault)

namespace Emit

def op (i : Instr) : Emit PUnit := modify fun s => { s with code := s.code.emit i }

def newLabel : Emit Label := modifyGet fun s =>
  let (l, code) := s.code.newLabel
  (l, { s with code })

def newLabels : Nat → Emit (List Label)
  | 0 => return []
  | n + 1 => do
    let l ← newLabel
    return l :: (← newLabels n)

def mark (l : Label) : Emit PUnit := modify fun s =>
  { s with code := s.code.mark l, markedAt := some s.code.code.size }

def handler (h : Handler) : Emit PUnit := modify fun s => { s with code := s.code.handler h }

def atLine (n : Nat) : Emit PUnit :=
  if n > 0 then modify fun s => { s with code := s.code.line n } else return ⟨⟩

def pooled (f : Pool → Nat × Pool) : Emit Nat := modifyGet fun s =>
  let (i, pool) := f s.pool
  (i, { s with pool })

def form (f : Form) : Emit Nat := pooled (·.form f)

/-- A member name that is looked up at run time. -/
def text (s : String) : Emit Nat := pooled (·.constant (.form (.str s)))

def var (v : VarRef) : Emit Nat := pooled (·.constant (.var v.name))

def type (name : String) : Emit Nat := pooled (·.constant (.type name))

def host (m : HostRef) : Emit Nat := pooled (·.constant (.host m))

def child (u : CompiledUnit) : Emit Nat := pooled (·.child u)

/-- Whether control cannot reach the next instruction. -/
def terminated : Emit Bool := do
  let s ← get
  return s.markedAt != some s.code.code.size && (s.code.code.back?.map Instr.isTerminal).getD false

/-- Leaves an arm for the common exit, unless it is left already. -/
def exitArm (dest : Dest) (stop : Label) : Emit PUnit := do
  if dest != .result && !(← terminated) then op (.jump stop)

/-! ## Destinations -/

def box (kind : Option Prim) : Emit PUnit :=
  match kind with
  | some p => op (.box p)
  | none => return ⟨⟩

def unbox (kind : Option Prim) (p : Prim) : Emit PUnit :=
  match kind with
  | some own => if own == p then return ⟨⟩ else op (.convert own p)
  | none => op (.unbox p)

/-- Takes the value on top of the stack, which is of a known kind, to its destination. -/
def settle (env : EmitEnv) (dest : Dest) (kind : Option Prim) : Emit PUnit := do
  match dest with
  | .statement => box kind; op .pop
  | .boxed => box kind
  | .unboxed p => unbox kind p
  | .result =>
    match env.ret with
    | some p => unbox kind p; op (.box p)
    | none => box kind
    op .return

/-- A value whose computation has no effect: nothing is emitted if it is dropped. -/
def inert (env : EmitEnv) (dest : Dest) (kind : Option Prim) (push : Emit PUnit) : Emit PUnit := do
  if dest == .statement then return ⟨⟩
  else push; settle env dest kind

/-! ## Locals -/

/-- Pushes a local as it is stored and empties its place at the last use. -/
def pushLocal (env : EmitEnv) (r : LocalRef) : Emit PUnit := do
  let c := env.context
  let b := c.binding r.binding
  let clear := !c.options.disableLocalsClearing && b.prim.isNone && b.canBeCleared &&
    !b.usedInHandler && (c.use r.site).shouldClear
  if b.method == some env.frame then
    if b.slot == 0 then op .loadThis
    else if clear then op (.loadClear b.slot)
    else op (.load b.slot)
  else
    let o := c.object env.obj
    match o.fieldIndex? r.binding with
    | some i => if clear && o.once then op (.loadFieldClear i) else op (.loadField i)
    | none => throw (.notVisible b.name.render)

def pushLocals (env : EmitEnv) (rs : List LocalRef) : Emit PUnit := rs.forM (pushLocal env)

/-- The slots that nothing reads after a tail call: those of boxed locals that no handler uses. -/
def deadSlots (c : Context) (frame : Nat) : List Nat :=
  let own := c.bindings.toList.filter fun b => b.method == some frame && b.slot != 0
  let kept (b : Binding) : Bool := b.prim.isSome || b.usedInHandler || !b.canBeCleared
  let keep := (own.filter kept).map (·.slot)
  let slots := (own.filter fun b => !kept b).map (·.slot)
  ((slots.filter fun s => !keep.contains s).eraseDups).mergeSort (· ≤ ·)

def clearDead (env : EmitEnv) : Emit PUnit := do
  if !env.context.options.disableLocalsClearing then
    (deadSlots env.context env.frame).forM fun s => op (.clear s)

def slotOf (env : EmitEnv) (binding : Nat) : Nat := (env.context.binding binding).slot

def primOf (env : EmitEnv) (binding : Nat) : Option Prim := (env.context.binding binding).prim

/-- Lets the local functions of one form know each other, after all of them are made. -/
def linkFns (env : EmitEnv) (bindings : List (Nat × Expr)) : Emit PUnit :=
  bindings.forM fun (binding, init) => do
    match init with
    | .fn _ captures _ =>
      captures.zipIdx.forM fun (capture, i) => do
        if bindings.any fun b => b.1 == capture.binding then
          op (.load (slotOf env binding))
          op (.load (slotOf env capture.binding))
          op (.initField i)
    | _ => return ⟨⟩

end Emit

end LispMachine

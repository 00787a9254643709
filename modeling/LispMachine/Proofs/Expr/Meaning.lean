import LispMachine.Proofs.Emit.Layout
import LispMachine.Proofs.Machine.Activation
/-!
# The meaning of expressions

`eval` evaluates an expression from left to right, without stack, labels or destinations: locals are
looked up by the number of their binding, an `if` goes by the truth of its test, a loop rebinds its
locals all at once.  What the expression asks of the tables of its unit is found by the number of the
need (`Expr.needs`).

The first number bounds the iterations of loops and the allowance of calls; an evaluation for which it
does not suffice is cut short.  Exceptions that are caught in the same method have no meaning here, so a
`try` is stuck.
-/
namespace LispMachine

/-- The evaluation cannot go on. -/
def Run.stuck {α : Type} : Run α := fun w => (.cut, w)

/-- One activation of a compiled method: what the compiler knew, what the needs of the body are linked to,
the receiver and the place of its fields, and how deep the activation is nested. -/
structure Activation where
  context : Context
  obj : Nat
  frame : Nat
  ret : Option Prim
  unit : Nat
  tables : LinkedCode
  entryOf : Nat → Nat
  this : Value
  place : Nat
  depth : Nat

/-- The values of the locals of the activation, by binding. -/
abbrev Locals := Nat → Slot

def Locals.set (ρ : Locals) (b : Nat) (s : Slot) : Locals := fun b' => if b' = b then s else ρ b'

def Locals.setAll (ρ : Locals) (us : List (Nat × Slot)) : Locals := us.foldl (fun ρ u => ρ.set u.1 u.2) ρ

/-- How an expression ends: with a value of a known kind, or by rebinding the locals of the loop. -/
inductive Flow where
  | value (kind : Option Prim) (s : Slot)
  | again (us : List (Nat × Slot))

namespace Slot

/-- A value of a known kind as a boxed one. -/
def boxAs : Option Prim → Slot → Slot
  | some _, s => .obj s.toValue
  | none, s => s

/-- A value of a known kind as a primitive. -/
def unboxAs (kind : Option Prim) (p : Prim) (s : Slot) : Except Failure Slot :=
  match kind with
  | some own => if own == p then .ok s else s.convert p
  | none => unbox s.toValue p

/-- A value of a known kind as it is held: unboxed if a kind is given, boxed otherwise. -/
def holdAs (held kind : Option Prim) (s : Slot) : Except Failure Slot :=
  match held with
  | some p => unboxAs kind p s
  | none => .ok (boxAs kind s)

end Slot

/-- The value of an operand, as it is held. -/
def Run.held (p : Option Prim) (x : Run Flow) : Run Slot := do
  match ← x with
  | .value kind s => Run.ofExcept (s.holdAs p kind)
  | .again _ => Run.stuck

/-- Runs the body of a loop until it ends with a value. -/
def Run.iterate (body : Locals → Run Flow) : Nat → Locals → Run Flow
  | 0, _ => Run.stuck
  | n + 1, ρ => do
    match ← body ρ with
    | .again us => Run.iterate body n (ρ.setAll us)
    | .value kind s => return .value kind s

namespace Activation

variable (S : Activation)

/-- The constant for a need. -/
def value (k : Nat) : Value := (S.tables.constants[S.entryOf k]?).getD .nil

/-- The var for a need. -/
def varId (k : Nat) : Nat :=
  match S.value k with
  | .var id _ => id
  | _ => 0

/-- The class for a need. -/
def type (k : Nat) : ClassId × String :=
  match S.value k with
  | .type id name => (id, name)
  | _ => (0, "")

/-- The host member for a need. -/
def member? (k : Nat) : Option HostMember := (S.tables.hosts[S.entryOf k]?).join

/-- The nested unit for a need. -/
def child? (k : Nat) : Option Nat := S.tables.children[S.entryOf k]?

def prim (b : Nat) : Option Prim := (S.context.binding b).prim

/-- The value of a local: one of this method, the receiver itself, or one that the receiver carries. -/
def lookup (ρ : Locals) (r : LocalRef) : Run Slot := Run.read fun w =>
  let b := S.context.binding r.binding
  if b.method == some S.frame then if b.slot == 0 then .obj S.this else ρ r.binding
  else
    match (S.context.object S.obj).fieldIndex? r.binding with
    | some i => ((w.fieldsOf S.place)[i]?).getD Slot.empty
    | none => Slot.empty

/-- A new function of a nested unit. -/
def closure (child : Nat) (captured : List Slot) : Run Value := do
  let obj ← Run.change fun w => w.allocFields captured.toArray
  return .fn obj child (Machine.loadedUnit (← Run.world) child).unit.name

/-- Gives a var its metadata and, if there is one, its root value. -/
def define (id : Nat) (info : Value) (root : Option Value) : Run Value := do
  let w ← Run.world
  Run.modify fun w => w.modifyVar id fun v => v.setInfo info
  match root with
  | some v => Run.modify fun w => w.modifyVar id fun x => { x with root := some v }
  | none => pure ⟨⟩
  return w.varValue id

/-- A method of the host on a receiver. -/
def callVirtual (m : HostMember) (args : List Slot) : Run Slot :=
  match args.head? with
  | some (.obj .nil) => Run.raise (.nullPointer ("Cannot invoke method " ++ m.name ++ " on nil"))
  | _ => do return Machine.resultSlot m (← Host.call m.op args)

/-- A field of an instance of a known type. -/
def knownField (type : ClassId × String) (index : Nat) (target : Value) : Run Slot := do
  let w ← Run.world
  match target with
  | .inst obj own _ =>
    if own == type.1 then return ((w.fieldsOf obj)[index]?).getD Slot.empty
    else Run.raise (.classCast target type.2)
  | other => Run.raise (.classCast other type.2)

def throwValue {α : Type} (v : Value) : Run α :=
  match v with
  | .exception .. => Run.throw v
  | other => Run.raise (.classCast other "Throwable")

/-- Gives a local function those of its group that it captures. -/
def linkCaptures (ρ : Locals) (group : List (Nat × Expr)) (b : Nat) : List (LocalRef × Nat) → Run PUnit
  | [] => return ⟨⟩
  | (c, i) :: rest => do
    if group.any fun g => g.1 == c.binding then Machine.initField i (ρ c.binding) (ρ b).toValue else pure ⟨⟩
    linkCaptures ρ group b rest

def linkGroup (ρ : Locals) (group : List (Nat × Expr)) : List (Nat × Expr) → Run PUnit
  | [] => return ⟨⟩
  | (b, .fn _ captures _) :: rest => do
    linkCaptures ρ group b captures.zipIdx
    linkGroup ρ group rest
  | _ :: rest => linkGroup ρ group rest

/-- The key of a value in a `case`; none if it is of no class that has keys. -/
def caseKey (k : Nat) (plan : CasePlan) (v : Value) : Run (Option Int32) := do
  let masked (key : Int32) : Int32 :=
    if plan.mask != 0 then Machine.shiftMask key plan.shift plan.mask else key
  match plan.test with
  | .int =>
    if (← Run.world).isInstance v (S.type k).1 then
      return some (masked ((← Run.ofExcept (Slot.unbox v .int)).int?.getD 0))
    else return none
  | .hashIdentity | .hashEquiv => return some (masked v.hash)

/-- Whether a value is the constant of a clause. -/
def isCase (test : CaseTest) (v constant : Value) : Bool :=
  if test == .hashIdentity then Value.identical v constant else Value.equiv v constant

end Activation

namespace Expr

open Emit (argPrims memberKind ctorOf keyNeeds)

mutual

/-- Evaluates an expression whose needs are numbered from `k` on. -/
def meaning (S : Activation) (n k : Nat) (ρ : Locals) : Expr → Run Flow
  | .nil => return .value none (.obj .nil)
  | .bool b => return .value none (.obj (.bool b))
  | .long i => return .value (some .long) (.long i)
  | .double d => return .value (some .double) (.double d)
  | .const _ | .type _ => return .value none (.obj (S.value k))
  | .local r => do return .value r.prim (← S.lookup ρ r)
  | .vector items => do
    let items ← meaningArgs S n k ρ [] items
    return .value none (.obj (← Run.newVector (items.map Slot.toValue)))
  | .map pairs => do
    let items ← meaningPairs S n k ρ pairs
    return .value none (.obj (← Run.newMap (Value.Entries.ofItems (items.map Slot.toValue))))
  | .set items => do
    let items ← meaningArgs S n k ρ [] items
    return .value none (.obj (← Run.newSet (items.map Slot.toValue)))
  | .var _ => do
    let w ← Run.world
    return .value none (.obj (← Run.ofExcept (w.varGet (S.varId k))))
  | .theVar _ => return .value none (.obj (S.value k))
  | .define _ init _ => do
    let root ← meaningOption S n k ρ init
    let k := k + (needsOption init).length
    return .value none (.obj (← Activation.define (S.varId k) (S.value (k + 1)) (root.map Slot.toValue)))
  | .assign (.var _) value => do
    let s ← Run.held none (meaning S n k ρ value)
    return .value none (.obj (← Machine.setVar (S.varId (k + (needs value).length)) s.toValue))
  | .assign (.field b) value => do
    let s ← Run.held (S.prim b) (meaning S n k ρ value)
    match (S.context.object S.obj).fieldIndex? b with
    | some i =>
      Run.modify fun w => w.setField S.place i s
      return .value none (s.boxAs (S.prim b))
    | none => Run.stuck
  | .cond test yes no _ => do
    let s ← Run.held none (meaning S n k ρ test)
    let k := k + (needs test).length
    if s.toValue.isTruthy then meaning S n k ρ yes else meaning S n (k + (needs yes).length) ρ no
  | .seq body => meaningSeq S n k ρ body
  | .bind isLoop bindings body => do
    let ρ ← meaningBindings S n k ρ S.prim bindings
    let k := k + (needsBindings bindings).length
    if isLoop then Run.iterate (fun ρ => meaning S n k ρ body) n ρ else meaning S n k ρ body
  | .bindFns bindings body => do
    let ρ := ρ.setAll (bindings.map fun b => (b.1, Slot.empty))
    let ρ ← meaningBindings S n k ρ (fun _ => none) bindings
    Activation.linkGroup ρ bindings bindings
    meaning S n (k + (needsBindings bindings).length) ρ body
  | .recur targets args _ => do
    let ss ← meaningArgs S n k ρ (targets.map S.prim) args
    return .again (targets.zip ss)
  | .fn _ captures _ => do
    match S.child? k with
    | some child =>
      let captured ← Run.forList (S.lookup ρ) captures
      return .value none (.obj (← Activation.closure child captured))
    | none => Run.stuck
  | .invoke f args _ _ => do
    let f' ← Run.held none (meaning S n k ρ f)
    let args ← meaningArgs S n (k + (needs f).length) ρ [] args
    let a ← Machine.invoke f'.toValue (args.map Slot.toValue)
    return .value none (.obj (← Machine.complete n S.depth a))
  | .keywordInvoke _ target _ => do
    let s ← Run.held none (meaning S n k ρ target)
    return .value none (.obj (← Machine.keywordInvoke S.unit (S.entryOf (k + (needs target).length)) s.toValue))
  | .protocolInvoke _ args _ => do
    let ss ← meaningArgs S n k ρ [] args
    let a ← Machine.protocolInvoke S.unit (S.entryOf (k + (needsAll args).length)) (ss.map Slot.toValue)
    return .value none (.obj (← Machine.complete n S.depth a))
  | .staticCall _ name member args _ => do
    let ss ← meaningArgs S n k ρ (argPrims member) args
    let k := k + (needsAll args).length
    match member with
    | some m =>
      match S.member? k with
      | some h => return .value m.ret.prim? (Machine.resultSlot h (← Host.call h.op ss))
      | none => Run.stuck
    | none => return .value none (.obj (← Machine.invokeStatic (S.type k).2 name (ss.map Slot.toValue)))
  | .methodCall target name member args _ => do
    let s ← Run.held none (meaning S n k ρ target)
    let k := k + (needs target).length
    let ss ← meaningArgs S n k ρ (argPrims member) args
    let k := k + (needsAll args).length
    match member with
    | some m =>
      match S.member? k with
      | some h => return .value m.ret.prim? (← Activation.callVirtual h (s :: ss))
      | none => Run.stuck
    | none =>
      let a ← Machine.invokeMethod s.toValue name (ss.map Slot.toValue)
      return .value none (.obj (← Machine.complete n S.depth a))
  | .staticField _ member => do
    match S.member? k with
    | some h => return .value member.ret.prim? (Machine.resultSlot h (← Host.call h.op []))
    | none => Run.stuck
  | .fieldGet target name field _ => do
    let s ← Run.held none (meaning S n k ρ target)
    let k := k + (needs target).length
    match field with
    | some f => return .value f.prim (← Activation.knownField (S.type k) f.index s.toValue)
    | none =>
      let a ← Machine.getField s.toValue name
      return .value none (.obj (← Machine.complete n S.depth a))
  | .construct _ member declared args _ => do
    let ss ← meaningArgs S n k ρ (argPrims (ctorOf member declared)) args
    let k := k + (needsAll args).length
    match ctorOf member declared with
    | some _ =>
      match S.member? k with
      | some h => return .value none (← Host.call h.op ss)
      | none => Run.stuck
    | none => return .value none (.obj (← Machine.construct (S.type k).1 (ss.map Slot.toValue)))
  | .instanceOf _ value => do
    let s ← Run.held none (meaning S n k ρ value)
    let w ← Run.world
    return .value (some .bool) (.bool (w.isInstance s.toValue (S.type (k + (needs value).length)).1))
  | .throw value => do
    let s ← Run.held none (meaning S n k ρ value)
    Activation.throwValue s.toValue
  | .attempt .. => Run.stuck
  | .case value temp plan buckets otherwise _ => do
    let s ← Run.held none (meaning S n k ρ value)
    let ρ := ρ.set temp s
    let key ← S.caseKey (k + (needs value).length) plan s.toValue
    let k := k + (needs value).length + (keyNeeds plan).length
    match ← meaningBuckets S n k ρ plan.test s.toValue key buckets with
    | some r => return r
    | none => meaning S n (k + (needsBuckets buckets).length) ρ otherwise
  | .deftype _ _ => return .value none (.obj (S.value (k + 1)))
  | .reify _ _ captures _ => do
    let captured ← Run.forList (S.lookup ρ) captures
    return .value none (.obj (← Machine.construct (S.type (k + 1)).1 (captured.map Slot.toValue)))

def meaningOption (S : Activation) (n k : Nat) (ρ : Locals) : Option Expr → Run (Option Slot)
  | some e => do return some (← Run.held none (meaning S n k ρ e))
  | none => return none

/-- Operands from left to right, each held as the kind given for it. -/
def meaningArgs (S : Activation) (n k : Nat) (ρ : Locals) (prims : List (Option Prim)) : List Expr → Run (List Slot)
  | [] => return []
  | e :: es => do
    let s ← Run.held prims.head?.join (meaning S n k ρ e)
    let ss ← meaningArgs S n (k + (needs e).length) ρ prims.tail es
    return s :: ss

def meaningPairs (S : Activation) (n k : Nat) (ρ : Locals) : List (Expr × Expr) → Run (List Slot)
  | [] => return []
  | (key, value) :: rest => do
    let s ← Run.held none (meaning S n k ρ key)
    let k := k + (needs key).length
    let t ← Run.held none (meaning S n k ρ value)
    let ss ← meaningPairs S n (k + (needs value).length) ρ rest
    return s :: t :: ss

/-- The value of the last expression. -/
def meaningSeq (S : Activation) (n k : Nat) (ρ : Locals) : List Expr → Run Flow
  | [] => return .value none (.obj .nil)
  | [e] => meaning S n k ρ e
  | e :: es => do
    let _ ← Run.held none (meaning S n k ρ e)
    meaningSeq S n (k + (needs e).length) ρ es

/-- Locals that get their values one after the other, held as the given kinds. -/
def meaningBindings (S : Activation) (n k : Nat) (ρ : Locals) (kinds : Nat → Option Prim) :
    List (Nat × Expr) → Run Locals
  | [] => return ρ
  | (b, init) :: rest => do
    let s ← Run.held (kinds b) (meaning S n k ρ init)
    meaningBindings S n (k + (needs init).length) (ρ.set b s) kinds rest

/-- The clause of the first bucket with the key, if there is one. -/
def meaningBuckets (S : Activation) (n k : Nat) (ρ : Locals) (test : CaseTest) (v : Value) (key : Option Int32) :
    List (Int32 × List (Form × Expr)) → Run (Option Flow)
  | [] => return none
  | (own, entries) :: rest =>
    if key = some own then meaningEntries S n k ρ test v entries
    else meaningBuckets S n (k + (needsEntries entries).length) ρ test v key rest

/-- The first clause whose constant the value is. -/
def meaningEntries (S : Activation) (n k : Nat) (ρ : Locals) (test : CaseTest) (v : Value) :
    List (Form × Expr) → Run (Option Flow)
  | [] => return none
  | (_, value) :: rest =>
    if Activation.isCase test v (S.value k) then do return some (← meaning S n (k + 1) ρ value)
    else meaningEntries S n (k + 1 + (needs value).length) ρ test v rest

end

theorem meaning_seq (S : Activation) (n k : Nat) (ρ : Locals) (body : List Expr) :
    (seq body).meaning S n k ρ = meaningSeq S n k ρ body := by
  rw [meaning]

end Expr

/-! ## Destinations -/

/-- What becomes of the value of an expression at its destination. -/
inductive Landing where
  | dropped
  | pushed (s : Slot)
  | returned (v : Value)
  /-- The locals of the loop are rebound instead. -/
  | again (us : List (Nat × Slot))

/-- Takes the outcome of an expression to a destination; what is returned has the given kind. -/
def Flow.land (ret : Option Prim) (dest : Dest) : Flow → Except Failure Landing
  | .again us => .ok (.again us)
  | .value kind s =>
    match dest with
    | .statement => .ok .dropped
    | .boxed => .ok (.pushed (s.boxAs kind))
    | .unboxed p => (s.unboxAs kind p).map .pushed
    | .result =>
      match ret with
      | some p => (s.unboxAs kind p).map fun s => .returned s.toValue
      | none => .ok (.returned s.toValue)

/-- Only a `recur` rebinds locals. -/
theorem Flow.land_value_ne (ret : Option Prim) (dest : Dest) (kind : Option Prim) (s : Slot) (us : List (Nat × Slot)) :
    (Flow.value kind s).land ret dest ≠ .ok (.again us) := by
  intro h
  cases dest with
  | statement | boxed => cases h
  | unboxed p =>
    simp only [Flow.land] at h
    cases hu : s.unboxAs kind p <;> rw [hu] at h <;> cases h
  | result =>
    cases ret with
    | none => cases h
    | some p =>
      simp only [Flow.land] at h
      cases hu : s.unboxAs kind p <;> rw [hu] at h <;> cases h

end LispMachine

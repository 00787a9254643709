import LispMachine.Machine.Dispatch
/-!
# One instruction

`step` carries out one instruction of a frame whose program counter already points behind it.  It
never runs another method: an instruction that calls something says what is to be called, and the
value of the call goes on top of the operand stack.
-/
namespace LispMachine.Machine

inductive Action where
  | next (f : Frame)
  | done (v : Value)
  /-- Make a call and go on with its value on the stack. -/
  | call (f : Frame) (a : Answer)
  deriving Inhabited

/-- An answer that is already a value needs no call. -/
def Action.ofAnswer (f : Frame) : Answer → Action
  | .value v => .next (f.pushValue v)
  | a => .call f a

def shiftMask (h : Int32) (shift : Nat) (mask : UInt32) : Int32 :=
  (h >>> Int32.ofNat shift) &&& mask.toInt32

/-- The label of a dense switch. -/
def tableTarget (low : Int32) (targets : List Label) (otherwise : Label) (k : Int32) : Label :=
  let i := k.toInt - low.toInt
  if i < 0 then otherwise else (targets[i.toNat]?).getD otherwise

/-- The label of a sparse switch. -/
def lookupTarget (keys : List Int32) (targets : List Label) (otherwise : Label) (k : Int32) : Label :=
  match keys.findIdx? (· == k) with
  | some i => (targets[i]?).getD otherwise
  | none => otherwise

def switchKey (s : Slot) (what : String) : Except Failure Int32 :=
  match s.int? with
  | some k => .ok k
  | none => .error (.internal what)

/-- Instructions that only move slots about or jump. -/
def stepLocal (f : Frame) (i : Instr) : Except Failure Frame :=
  match i with
  | .nil => .ok (f.pushValue .nil)
  | .pushBool b => .ok (f.push (.bool b))
  | .pushLong n => .ok (f.push (.long n))
  | .pushDouble d => .ok (f.push (.double d))
  | .pushInt n => .ok (f.push (.int n))
  | .pop => do return (← f.pop).2
  | .dup => do
    let (s, f) ← f.pop
    return (f.push s).push s
  | .box _ => do
    let (v, f) ← f.popValue
    return f.pushValue v
  | .unbox p => do
    let (v, f) ← f.popValue
    return f.push (← Slot.unbox v p)
  | .convert _ p => do
    let (s, f) ← f.pop
    return f.push (← s.convert p)
  | .load slot => do return f.push (← f.getLocal slot)
  | .loadClear slot => do
    let s ← f.getLocal slot
    return (← f.setLocal slot Slot.empty).push s
  | .store slot => do
    let (s, f) ← f.pop
    f.setLocal slot s
  | .clear slot => f.setLocal slot Slot.empty
  | .loadThis => .ok (f.pushValue f.this)
  | .jump l => f.goto l
  | .jumpIfFalsy l => do
    let (v, f) ← f.popValue
    if v.isTruthy then return f else f.goto l
  | .jumpIfFalse l => do
    let (s, f) ← f.pop
    match s.bool? with
    | some true => return f
    | some false => f.goto l
    | none => .error (.classCast s.toValue "Boolean")
  | .jumpIfNotEquiv l => do
    let (b, f) ← f.popValue
    let (a, f) ← f.popValue
    if Value.equiv a b then return f else f.goto l
  | .jumpIfNotIdentical l => do
    let (b, f) ← f.popValue
    let (a, f) ← f.popValue
    if Value.identical a b then return f else f.goto l
  | .hash => do
    let (v, f) ← f.popValue
    return f.push (.int v.hash)
  | .shiftMask shift mask => do
    let (s, f) ← f.pop
    return f.push (.int (shiftMask (← switchKey s "shift-mask on non-int") shift mask))
  | .tableSwitch low targets otherwise => do
    let (s, f) ← f.pop
    f.goto (tableTarget low targets otherwise (← switchKey s "switch on non-int"))
  | .lookupSwitch keys targets otherwise => do
    let (s, f) ← f.pop
    f.goto (lookupTarget keys targets otherwise (← switchKey s "switch on non-int"))
  | _ => .ok f

def initField (i : Nat) (s : Slot) (target : Value) : Run PUnit := do
  match target with
  | .fn obj _ _ =>
    if i < ((← Run.world).fieldsOf obj).size then Run.modify fun w => w.setField obj i s
    else Run.raise (.internal "field out of range")
  | _ => Run.raise (.internal "field init on a non-closure")

/-- Sets a var that is bound on this thread. -/
def setVar (id : Nat) (v : Value) : Run Value := do
  let w ← Run.world
  match World.setBinding id v w.bindings with
  | some bindings =>
    Run.modify fun w => { w with bindings }
    return v
  | none =>
    Run.raise (.illegalState
      ("Can\x27t change/establish root binding of: " ++ (w.var id).name.name ++ " with set"))

/-- Instructions that read or change fields, vars and constants, or build collections. -/
def stepData (f : Frame) (i : Instr) : Run Frame := do
  match i with
  | .const i => return f.pushValue (← Run.ofExcept (f.constant (← Run.world) i))
  | .loadField i =>
    let obj ← Run.ofExcept f.fieldsPlace
    return f.push ((((← Run.world).fieldsOf obj)[i]?).getD Slot.empty)
  | .loadFieldClear i =>
    let obj ← Run.ofExcept f.fieldsPlace
    let s := (((← Run.world).fieldsOf obj)[i]?).getD Slot.empty
    Run.modify fun w => w.setField obj i Slot.empty
    return f.push s
  | .storeField i =>
    let (s, f) ← Run.ofExcept f.pop
    let obj ← Run.ofExcept f.fieldsPlace
    Run.modify fun w => w.setField obj i s
    return f
  | .initField i =>
    let (s, f) ← Run.ofExcept f.pop
    let (target, f) ← Run.ofExcept f.popValue
    initField i s target
    return f
  | .varGet i =>
    let w ← Run.world
    return f.pushValue (← Run.ofExcept (do w.varGet (← f.varAt w i)))
  | .varSet i =>
    let (v, f) ← Run.ofExcept f.popValue
    let id ← Run.ofExcept (f.varAt (← Run.world) i)
    return f.pushValue (← setVar id v)
  | .varDef var init info =>
    let w ← Run.world
    let id ← Run.ofExcept (f.varAt w var)
    match info with
    | some i =>
      let m ← Run.ofExcept (f.constant w i)
      Run.modify fun w => w.modifyVar id fun v => v.setInfo m
    | none => pure ⟨⟩
    if init then
      let (v, f) ← Run.ofExcept f.popValue
      Run.modify fun w => w.modifyVar id fun x => { x with root := some v }
      return f.pushValue (w.varValue id)
    else return f.pushValue (w.varValue id)
  | .getStatic i =>
    let m ← Run.ofExcept (f.memberAt (← Run.world) i)
    return f.push (resultSlot m (← Host.call m.op []))
  | .getField type index =>
    let w ← Run.world
    let (id, name) ← Run.ofExcept (f.classAt w type)
    let (target, f) ← Run.ofExcept f.popValue
    match target with
    | .inst obj own _ =>
      if own == id then return f.push (((w.fieldsOf obj)[index]?).getD Slot.empty)
      else Run.raise (.classCast target name)
    | other => Run.raise (.classCast other name)
  | .newFn unit captured =>
    match (f.loaded (← Run.world)).children[unit]? with
    | none => Run.raise (.internal "unit out of range")
    | some child =>
      let (slots, f) ← Run.ofExcept (f.popMany captured)
      let obj ← Run.change fun w => w.allocFields slots.toArray
      return f.pushValue (.fn obj child (loadedUnit (← Run.world) child).unit.name)
  | .keywordInvoke site =>
    let (target, f) ← Run.ofExcept f.popValue
    return f.pushValue (← keywordInvoke f.unit site target)
  | .instanceOf i =>
    let w ← Run.world
    let (id, _) ← Run.ofExcept (f.classAt w i)
    let (v, f) ← Run.ofExcept f.popValue
    return f.push (.bool (w.isInstance v id))
  | .makeVector n =>
    let (items, f) ← Run.ofExcept (f.popValues n)
    return f.pushValue (← Run.newVector items)
  | .makeMap n =>
    let (items, f) ← Run.ofExcept (f.popValues (n * 2))
    return f.pushValue (← Run.newMap (Value.Entries.ofItems items))
  | .makeSet n =>
    let (items, f) ← Run.ofExcept (f.popValues n)
    return f.pushValue (← Run.newSet items)
  | _ => return f

def stepHost (f : Frame) (i : Instr) : Run Frame := do
  match i with
  | .invokeStatic member argc =>
    let m ← Run.ofExcept (f.memberAt (← Run.world) member)
    let (args, f) ← Run.ofExcept (f.popMany argc)
    return f.push (resultSlot m (← Host.call m.op args))
  | .invokeVirtual member argc =>
    let m ← Run.ofExcept (f.memberAt (← Run.world) member)
    let (args, f) ← Run.ofExcept (f.popMany (argc + 1))
    match args.head? with
    | some (.obj .nil) => Run.raise (.nullPointer ("Cannot invoke method " ++ m.name ++ " on nil"))
    | _ => return f.push (resultSlot m (← Host.call m.op args))
  | .invokeStaticReflective type member argc =>
    let w ← Run.world
    let (_, className) ← Run.ofExcept (f.classAt w type)
    let name ← Run.ofExcept (f.nameAt w member)
    let (args, f) ← Run.ofExcept (f.popValues argc)
    return f.pushValue (← invokeStatic className name args)
  | .new ctor argc =>
    let m ← Run.ofExcept (f.memberAt (← Run.world) ctor)
    let (args, f) ← Run.ofExcept (f.popMany argc)
    return f.push (← Host.call m.op args)
  | .newReflective type argc | .newInstance type argc =>
    let (id, _) ← Run.ofExcept (f.classAt (← Run.world) type)
    let (args, f) ← Run.ofExcept (f.popValues argc)
    return f.pushValue (← construct id args)
  | _ => return f

def step (f : Frame) (i : Instr) : Run Action :=
  match i with
  | .invoke argc => do
    let (args, f) ← Run.ofExcept (f.popValues argc)
    let (g, f) ← Run.ofExcept f.popValue
    return Action.ofAnswer f (← invoke g args)
  | .invokeReflective member argc => do
    let name ← Run.ofExcept (f.nameAt (← Run.world) member)
    let (args, f) ← Run.ofExcept (f.popValues argc)
    let (target, f) ← Run.ofExcept f.popValue
    return Action.ofAnswer f (← invokeMethod target name args)
  | .getFieldReflective member => do
    let name ← Run.ofExcept (f.nameAt (← Run.world) member)
    let (target, f) ← Run.ofExcept f.popValue
    return Action.ofAnswer f (← getField target name)
  | .protocolInvoke site argc => do
    let (args, f) ← Run.ofExcept (f.popValues argc)
    return Action.ofAnswer f (← protocolInvoke f.unit site args)
  | .throw => do
    let (v, _) ← Run.ofExcept f.popValue
    match v with
    | .exception .. => Run.throw v
    | other => Run.raise (.classCast other "Throwable")
  | .return => do
    let (v, _) ← Run.ofExcept f.popValue
    return .done v
  | .const _ | .loadField _ | .loadFieldClear _ | .storeField _ | .initField _ | .varGet _
  | .varSet _ | .varDef .. | .getStatic _ | .getField .. | .newFn .. | .keywordInvoke _
  | .instanceOf _ | .makeVector _ | .makeMap _ | .makeSet _ => do
    return .next (← stepData f i)
  | .invokeStatic .. | .invokeVirtual .. | .invokeStaticReflective .. | .new .. | .newReflective ..
  | .newInstance .. => do
    return .next (← stepHost f i)
  | i => do return .next (← Run.ofExcept (stepLocal f i))

end LispMachine.Machine

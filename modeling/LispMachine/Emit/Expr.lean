import LispMachine.Emit.Basic
/-!
# Code for expressions
-/
namespace LispMachine.Emit

/-- The class of which every value that reaches an integer switch must be an instance. -/
def numberClass : String := "Number"

def pushCaseKey (plan : CasePlan) (temp : Nat) (otherwise : Label) : Emit PUnit := do
  match plan.test with
  | .int =>
    op (.load temp)
    op (.instanceOf (← type numberClass))
    op (.jumpIfFalse otherwise)
    op (.load temp)
    op (.unbox .int)
  | .hashIdentity | .hashEquiv =>
    op (.load temp)
    op .hash
  if plan.mask != 0 then op (.shiftMask plan.shift plan.mask)

/-- The jump for each key from `low` on, so many of them. -/
def tableTargets (keys : List (Int32 × Label)) (otherwise : Label) (low : Int) : Nat → List Label
  | 0 => []
  | n + 1 =>
    ((keys.find? fun k => k.1.toInt == low).map (·.2)).getD otherwise ::
      tableTargets keys otherwise (low + 1) n

def switchOver (plan : CasePlan) (keys : List (Int32 × Label)) (otherwise : Label) : Instr :=
  match plan.switch, keys.head?, keys.getLast? with
  | .compact, some (low, _), some (high, _) =>
    .tableSwitch low (tableTargets keys otherwise low.toInt (high.toInt - low.toInt + 1).toNat) otherwise
  | _, _, _ => .lookupSwitch (keys.map (·.1)) (keys.map (·.2)) otherwise

/-- The kinds in which a resolved member takes its arguments; all others are passed boxed. -/
def argPrims (member : Option HostRef) : List (Option Prim) :=
  (member.map fun m => m.params.map HostType.prim?).getD []

mutual

def emit (env : EmitEnv) (dest : Dest) : Expr → Emit PUnit
  | .nil => inert env dest none (op .nil)
  | .bool b =>
    if dest == .unboxed .bool then op (.pushBool b)
    else inert env dest none do op (.pushBool b); op (.box .bool)
  | .long n => inert env dest (some .long) (op (.pushLong n))
  | .double d => inert env dest (some .double) (op (.pushDouble d))
  | .const f => inert env dest none do op (.const (← form f))
  | .type name => inert env dest none do op (.const (← type name))
  | .local r => inert env dest r.prim (pushLocal env r)
  | .vector items => do
    emitAll env items
    op (.makeVector items.length)
    settle env dest none
  | .map pairs => do
    emitPairs env pairs
    op (.makeMap pairs.length)
    settle env dest none
  | .set items => do
    emitAll env items
    op (.makeSet items.length)
    settle env dest none
  | .var v => do
    op (.varGet (← var v))
    settle env dest none
  | .theVar v => do
    op (.const (← var v))
    settle env dest none
  | .define v init info => do
    emitOption env .boxed init
    let i ← var v
    op (.varDef i init.isSome (some (← form info)))
    settle env dest none
  | .assign target value => do
    match target with
    | .var v =>
      emit env .boxed value
      op (.varSet (← var v))
    | .field b =>
      match (env.context.object env.obj).fieldIndex? b with
      | none => throw (.notAssignable (env.context.binding b).name.render)
      | some i =>
        emit env (Dest.ofPrim (primOf env b)) value
        op .dup
        op (.storeField i)
        box (primOf env b)
    settle env dest none
  | .cond test yes no line => do
    let otherwise ← newLabel
    let stop ← newLabel
    atLine line
    if test.prim? == some .bool then
      emit env (.unboxed .bool) test
      op (.jumpIfFalse otherwise)
    else
      emit env .boxed test
      op (.jumpIfFalsy otherwise)
    emit env dest yes
    exitArm dest stop
    mark otherwise
    emit env dest no
    mark stop
  | .seq body => emitSeq env dest body
  | .bind isLoop bindings body => do
    emitBindings env bindings
    if isLoop then
      let head ← newLabel
      mark head
      emit { env with loopHead := head } dest body
    else emit env dest body
  | .bindFns bindings body => do
    bindings.forM fun b => do
      op .nil
      op (.store (slotOf env b.1))
    emitFns env bindings
    linkFns env bindings
    emit env dest body
  | .recur targets args line => do
    emitArgs env (targets.map (primOf env)) args
    atLine line
    targets.reverse.forM fun t => op (.store (slotOf env t))
    op (.jump env.loopHead)
  | .fn unit captures _ => do
    pushLocals env captures
    op (.newFn (← child unit) captures.length)
    settle env dest none
  | .invoke f args line tail => do
    emit env .boxed f
    emitAll env args
    if tail then clearDead env
    atLine line
    op (.invoke args.length)
    settle env dest none
  | .keywordInvoke k target line => do
    emit env .boxed target
    atLine line
    op (.keywordInvoke (← pooled (·.keywordSite k)))
    settle env dest none
  | .protocolInvoke v args line => do
    emitAll env args
    atLine line
    op (.protocolInvoke (← pooled (·.protocolSite v.name)) args.length)
    settle env dest none
  | .staticCall className name member args line => do
    emitArgs env (argPrims member) args
    atLine line
    match member with
    | some m =>
      op (.invokeStatic (← host m) args.length)
      settle env dest m.ret.prim?
    | none =>
      let c ← type className
      op (.invokeStaticReflective c (← text name) args.length)
      settle env dest none
  | .methodCall target name member args line => do
    emit env .boxed target
    emitArgs env (argPrims member) args
    atLine line
    match member with
    | some m =>
      op (.invokeVirtual (← host m) args.length)
      settle env dest m.ret.prim?
    | none =>
      op (.invokeReflective (← text name) args.length)
      settle env dest none
  | .staticField _ member => do
    op (.getStatic (← host member))
    settle env dest member.ret.prim?
  | .fieldGet target name field line => do
    emit env .boxed target
    atLine line
    match field with
    | some f =>
      op (.getField (← type f.type) f.index)
      settle env dest f.prim
    | none =>
      op (.getFieldReflective (← text name))
      settle env dest none
  | .construct className member declared args line => do
    let member := if declared then none else member
    emitArgs env (argPrims member) args
    atLine line
    match member with
    | some m => op (.new (← host m) args.length)
    | none =>
      let c ← type className
      op (if declared then .newInstance c args.length else .newReflective c args.length)
    settle env dest none
  | .instanceOf className value => do
    emit env .boxed value
    op (.instanceOf (← type className))
    settle env dest (some .bool)
  | .throw value => do
    emit env .boxed value
    op .throw
  | .attempt body handlers cleanup resultSlot thrownSlot => do
    let start ← newLabel
    let stop ← newLabel
    let done ← newLabel
    let finish := emitOption env .statement cleanup
    mark start
    emit env .boxed body
    op (.store resultSlot)
    mark stop
    finish
    op (.load resultSlot)
    settle env dest none
    exitArm dest done
    let ranges ← emitHandlers env dest finish start stop done resultSlot handlers
    if cleanup.isSome then
      let target ← newLabel
      handler ⟨start, stop, target, none⟩
      ranges.forM fun r => handler ⟨r.1, r.2, target, none⟩
      mark target
      op (.store thrownSlot)
      finish
      op (.load thrownSlot)
      op .throw
    mark done
  | .case value temp plan buckets otherwise line => do
    let slot := slotOf env temp
    let missed ← newLabel
    let stop ← newLabel
    atLine line
    emit env .boxed value
    op (.store slot)
    pushCaseKey plan slot missed
    let labels ← newLabels buckets.length
    op (switchOver plan ((buckets.map (·.1)).zip labels) missed)
    emitBuckets env dest plan.test slot missed stop labels buckets
    mark missed
    emit env dest otherwise
    mark stop
  | .deftype name unit => do
    let _ ← child unit
    op (.const (← type name))
    settle env dest none
  | .reify name unit captures line => do
    pushLocals env captures
    let _ ← child unit
    let c ← type name
    atLine line
    op (.newInstance c captures.length)
    settle env dest none

def emitOption (env : EmitEnv) (dest : Dest) : Option Expr → Emit PUnit
  | some e => emit env dest e
  | none => return ⟨⟩

/-- All values boxed on the stack, in order. -/
def emitAll (env : EmitEnv) : List Expr → Emit PUnit
  | [] => return ⟨⟩
  | e :: es => do
    emit env .boxed e
    emitAll env es

def emitPairs (env : EmitEnv) : List (Expr × Expr) → Emit PUnit
  | [] => return ⟨⟩
  | (k, v) :: rest => do
    emit env .boxed k
    emit env .boxed v
    emitPairs env rest

/-- All values on the stack, each unboxed if a kind is given for it. -/
def emitArgs (env : EmitEnv) (prims : List (Option Prim)) : List Expr → Emit PUnit
  | [] => return ⟨⟩
  | e :: es => do
    emit env (Dest.ofPrim (prims.head?.join)) e
    emitArgs env prims.tail es

def emitSeq (env : EmitEnv) (dest : Dest) : List Expr → Emit PUnit
  | [] => inert env dest none (op .nil)
  | [e] => emit env dest e
  | e :: es => do
    emit env .statement e
    emitSeq env dest es

def emitBindings (env : EmitEnv) : List (Nat × Expr) → Emit PUnit
  | [] => return ⟨⟩
  | (b, init) :: rest => do
    emit env (Dest.ofPrim (primOf env b)) init
    op (.store (slotOf env b))
    emitBindings env rest

def emitFns (env : EmitEnv) : List (Nat × Expr) → Emit PUnit
  | [] => return ⟨⟩
  | (b, init) :: rest => do
    emit env .boxed init
    op (.store (slotOf env b))
    emitFns env rest

/-- The handlers of one form; the result is the range of each. -/
def emitHandlers (env : EmitEnv) (dest : Dest) (finish : Emit PUnit) (start stop done : Label)
    (resultSlot : Nat) : List (String × Nat × Expr) → Emit (List (Label × Label))
  | [] => return []
  | (className, b, body) :: rest => do
    let target ← newLabel
    let handlerStop ← newLabel
    handler ⟨start, stop, target, some className⟩
    mark target
    op (.store (slotOf env b))
    emit env .boxed body
    op (.store resultSlot)
    mark handlerStop
    finish
    op (.load resultSlot)
    settle env dest none
    exitArm dest done
    return (target, handlerStop) :: (← emitHandlers env dest finish start stop done resultSlot rest)

def emitBuckets (env : EmitEnv) (dest : Dest) (test : CaseTest) (slot : Nat) (missed stop : Label)
    (labels : List Label) : List (Int32 × List (Form × Expr)) → Emit PUnit
  | [] => return ⟨⟩
  | (_, entries) :: rest => do
    mark (labels.headD missed)
    emitEntries env dest test slot missed stop entries
    emitBuckets env dest test slot missed stop labels.tail rest

/-- The tests of one bucket, one after the other; the last one leads to the default. -/
def emitEntries (env : EmitEnv) (dest : Dest) (test : CaseTest) (slot : Nat) (missed stop : Label) :
    List (Form × Expr) → Emit PUnit
  | [] => return ⟨⟩
  | (constant, value) :: rest => do
    let next ← if rest.isEmpty then pure missed else newLabel
    op (.load slot)
    op (.const (← form constant))
    op (if test == .hashIdentity then .jumpIfNotIdentical next else .jumpIfNotEquiv next)
    emit env dest value
    exitArm dest stop
    if !rest.isEmpty then mark next
    emitEntries env dest test slot missed stop rest

end

end LispMachine.Emit

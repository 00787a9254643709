import LispMachine.Compile.Context
import LispMachine.Expr.Basic
import LispMachine.Machine.Execute
/-!
# Evaluating expressions directly

Forms that are analyzed under the demand `eval` need no method of their own: what binds, loops or
handles exceptions was put into a function that is called at once.  So only literals, vars,
definitions, calls and functions without captures are met here.
-/
namespace LispMachine.Expr

def running {α : Type} (x : Run α) : Analysis α := Analysis.run x .thrown

def classOf (name : String) : Analysis Class := do
  match (← Analysis.world).classes.lookup? name with
  | some c => return c
  | none => Analysis.fail (.unresolvedClass name)

def typeValue (name : String) : Analysis Value := do
  let c ← classOf name
  return .type c.id c.name

def constantValue (f : Form) : Analysis Value := Analysis.changeWorld fun w =>
  let (v, nextId) := (Value.ofForm f).run w.nextId
  (v, { w with nextId })

def varValue (v : VarRef) : Analysis Value := do
  running (Run.ofExcept ((← Analysis.world).varGet v.var))

def closedFn (u : CompiledUnit) : Analysis Value := do
  let id ← Analysis.load u
  Analysis.changeWorld (·.instantiate id)

mutual

def eval : Expr → Analysis Value
  | .nil => return .nil
  | .bool b => return .bool b
  | .long n => return .long n
  | .double d => return .double d
  | .const f => constantValue f
  | .type name => typeValue name
  | .vector items => do running (Run.newVector (← evalAll items))
  | .map pairs => do running (Run.newMap (← evalPairs pairs))
  | .set items => do running (Run.newSet (← evalAll items))
  | .var v => varValue v
  | .theVar v => return .var v.var v.name
  | .define v init info => do
    let m ← constantValue info
    Analysis.changeWorld fun w => ((), w.modifyVar v.var fun x => x.setInfo m)
    match ← evalOption init with
    | some value => Analysis.changeWorld fun w => ((), w.modifyVar v.var fun x => { x with root := some value })
    | none => pure ()
    return .var v.var v.name
  | .assign target value => do
    match target with
    | .var v =>
      let value ← eval value
      running (Machine.setVar v.var value)
    | .field _ => Analysis.fail .fieldAssignmentInEval
  | .cond test yes no _ => do
    if (← eval test).isTruthy then eval yes else eval no
  | .seq body => evalSeq body
  | .fn unit captures _ => if captures.isEmpty then closedFn unit else Analysis.fail .notEvaluable
  | .invoke f args _ _ => do
    let f ← eval f
    let args ← evalAll args
    running (Machine.call f args)
  | .keywordInvoke k target _ => do
    let target ← eval target
    running (Machine.call (.keyword k) [target])
  | .protocolInvoke v args _ => do
    let f ← varValue v
    let args ← evalAll args
    running (Machine.call f args)
  | .staticCall className name _ args _ => do
    let args ← evalAll args
    running (Machine.invokeStatic className name args)
  | .staticField className member => running (Machine.invokeStatic className member.member [])
  | .methodCall target name _ args _ => do
    let target ← eval target
    let args ← evalAll args
    running (do Machine.finish (← Machine.invokeMethod target name args))
  | .fieldGet target name _ _ => do
    let target ← eval target
    running (do Machine.finish (← Machine.getField target name))
  | .construct className _ _ args _ => do
    let args ← evalAll args
    let c ← classOf className
    running (Machine.construct c.id args)
  | .instanceOf className value => do
    let value ← eval value
    let c ← classOf className
    return .bool ((← Analysis.world).isInstance value c.id)
  | .deftype name unit => do
    let _ ← Analysis.load unit
    typeValue name
  | .reify name unit captures _ => do
    if captures.isEmpty then
      let _ ← Analysis.load unit
      let c ← classOf name
      running (Machine.construct c.id [])
    else Analysis.fail .notEvaluable
  | .local _ | .bind .. | .bindFns .. | .recur .. | .throw _ | .attempt .. | .case .. =>
    Analysis.fail .notEvaluable

def evalAll : List Expr → Analysis (List Value)
  | [] => return []
  | e :: es => do
    let v ← eval e
    return v :: (← evalAll es)

def evalPairs : List (Expr × Expr) → Analysis (List (Value × Value))
  | [] => return []
  | (k, v) :: rest => do
    let k ← eval k
    let v ← eval v
    return (k, v) :: (← evalPairs rest)

def evalOption : Option Expr → Analysis (Option Value)
  | some e => do return some (← eval e)
  | none => return none

def evalSeq : List Expr → Analysis Value
  | [] => return .nil
  | [e] => eval e
  | e :: es => do
    let _ ← eval e
    evalSeq es

end

end LispMachine.Expr

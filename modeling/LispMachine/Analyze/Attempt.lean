import LispMachine.Analyze.Basic
/-!
# Exceptions

A `try` needs an empty stack when a handler starts.  Only the last form of a method has that, so
anywhere else the whole form becomes a function of its own that is called at once.
-/
namespace LispMachine.Analyze

structure CatchClause where
  type : Symbol
  name : Symbol
  body : List Form

structure TryParts where
  body : List Form := []
  catches : List CatchClause := []
  cleanup : Option (List Form) := none

def catchClause (items : List Form) : Except CompileFault CatchClause :=
  match items with
  | _ :: .symbol type _ :: .symbol name _ :: body =>
    if name.isQualified then .error (.catchQualified name) else .ok ⟨type, name, body⟩
  | _ :: .symbol .. :: other :: _ => .error (.bindingNotSymbol other)
  | _ => .error .malformedCatch

/-- Adds one part of a `try`.  Nothing may follow the `finally` clause, and only clauses may follow a
`catch` clause. -/
def addTryPart (parts : TryParts) (f : Form) : Except CompileFault TryParts :=
  if parts.cleanup.isSome then .error .finallyNotLast
  else if f.isCallTo "catch" then do
    let clause ← catchClause (f.list?.getD [])
    return { parts with catches := parts.catches ++ [clause] }
  else if f.isCallTo "finally" then .ok { parts with cleanup := f.list?.map List.tail }
  else if !parts.catches.isEmpty then .error .bodyAfterCatch
  else .ok { parts with body := parts.body ++ [f] }

def tryParts (forms : List Form) : Except CompileFault TryParts := forms.foldlM addTryPart {}

/-- Analyzes a handler; the exception is a local of the caught class. -/
def handler (rec : Analyzer) (demand : Demand) (c : CatchClause) : Analysis (String × Nat × Expr) := do
  let type := c.type.name
  if ((← Analysis.world).classes.lookup? type).isNone then Analysis.fail (.unresolvedClass c.type.render)
  else Analysis.nested do
    Analysis.modifyScope fun s => { s with inHandler := true, methodReturn := false }
    let id ← Analysis.registerLocal c.name (some type) none false
    return (type, id, ← body rec demand c.body)

def attempt (rec : Analyzer) (demand : Demand) (form : Form) (items : List Form) : Analysis Expr := do
  if demand != .tail || !(← Analysis.scope).methodReturn then rec demand (wrapInOnceFn form)
  else
    let parts ← Analysis.ofExcept (tryParts items.tail)
    let resultSlot ← Analysis.change Context.allocSlot
    let thrownSlot ← Analysis.change Context.allocSlot
    let main ← Analysis.nested do
      Analysis.modifyScope fun s => { s with noRecur := true, methodReturn := false }
      body rec demand parts.body
    let handlers ← Analysis.forList (handler rec demand) parts.catches
    let cleanup ← match parts.cleanup with
      | none => pure none
      | some forms => Analysis.nested do
        Analysis.modifyScope fun s => { s with inHandler := true, methodReturn := false }
        return some (← body rec .statement forms)
    return .attempt main handlers cleanup resultSlot thrownSlot

end LispMachine.Analyze

import LispMachine.Emit.Expr
/-!
# Code for functions and types
-/
namespace LispMachine.Emit

def method (c : Context) (obj : Nat) (pool : Pool) (m : FnMethod) :
    Except CompileFault (Method × Pool) := do
  let params := m.params.map fun b => (c.binding b).prim
  let start := { Assembly.start m.name m.params.length m.rest.isSome with params, ret := m.ret }
  let emission : Emission := { pool, code := start }
  let ((), done) ← (do
    atLine m.line
    let head ← newLabel
    mark head
    emit { context := c, obj, frame := m.frame, ret := m.ret, loopHead := head } .result m.body :
      Emit PUnit).run emission
  return ((done.code.touchLocal (c.method m.frame).maxSlot).finish, done.pool)

/-- The code of several methods, which share one pool. -/
def methods (c : Context) (obj : Nat) (pool : Pool) :
    List FnMethod → Except CompileFault (List Method × Pool)
  | [] => .ok ([], pool)
  | m :: ms => do
    let (code, pool) ← method c obj pool m
    let (rest, pool) ← methods c obj pool ms
    return (code :: rest, pool)

def unit (c : Context) (obj : Nat) (kind : UnitKind) (ms : List FnMethod) :
    Except CompileFault CompiledUnit := do
  let frame := c.object obj
  let (codes, pool) ← methods c obj {} ms
  return {
    name := frame.name, kind, methods := codes
    closed := frame.closes.map fun b =>
      let b := c.binding b
      ⟨b.name.name, b.prim, b.isMutable⟩
    constants := pool.constants
    keywordSites := pool.keywordSites
    protocolSites := pool.protocolSites
    children := pool.children.reverse }

end LispMachine.Emit

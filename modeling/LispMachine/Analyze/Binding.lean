import LispMachine.Analyze.Basic
/-!
# Bindings and loops

A loop local takes the primitive kind of its initial value.  A `recur` that passes it a value of
another kind marks it, and the loop is analyzed again with that local boxed.  Every further pass boxes
at least one more local, so a loop of `n` locals is analyzed at most `n + 1` times.
-/
namespace LispMachine.Analyze

def bindingPairs (f : Option Form) : Except CompileFault (List (Form × Form)) :=
  match f with
  | some (.vector items _) =>
    if items.length % 2 != 0 then .error .bindingsUnpaired else .ok (pairs items)
  | _ => .error .bindingsNotVector
where
  pairs : List Form → List (Form × Form)
    | a :: b :: rest => (a, b) :: pairs rest
    | _ => []

def bindingName (f : Form) : Except CompileFault (Symbol × Option Form.Info) :=
  match f with
  | .symbol s info => if s.isQualified then .error (.bindingQualified s) else .ok (s, info)
  | other => .error (.bindingNotSymbol other)

/-- Binds names one after the other; each is visible to the next. -/
def bindAll (rec : Analyzer) : List (Form × Form) → List Bool → Analysis (List (Nat × Expr))
  | [], _ => return []
  | (name, init) :: rest, boxed => do
    let (s, info) ← Analysis.ofExcept (bindingName name)
    let init ← rec .expression init
    let isBoxed := boxed.headD false
    if isBoxed && (← Analysis.read (·.options)).warnOnBoxing then
      Analysis.warn .boxing ("Auto-boxing loop arg: " ++ s.render)
    let prim := if isBoxed then none else init.localPrim?
    let id ← Analysis.registerLocal s (tagText info) prim false
    return (id, init) :: (← bindAll rec rest boxed.tail)

/-- The body of a loop.  A local from outside that is used in it is not at its end, so the body has a
clear root of its own. -/
def loopBody (rec : Analyzer) (demand : Demand) (locals : List Nat) (forms : List Form) :
    Analysis Expr := do
  let root ← Analysis.addPath .path (← Analysis.scope).clearPath
  let clearRoot ← Analysis.addPath .path (some root)
  let clearPath ← Analysis.addPath .path (some root)
  Analysis.nested do
    Analysis.modifyScope fun s => { s with
      clearRoot := some clearRoot
      clearPath := some clearPath
      loopLocals := some locals
      noRecur := false
      methodReturn := demand == .tail && s.methodReturn }
    body rec .tail forms

/-- The flags for the next pass: every local that got a value of another kind is boxed. -/
def boxMismatched (c : Context) (locals : List Nat) (boxed : List Bool) : List Bool :=
  (locals.zip boxed).map fun (id, b) => b || (c.binding id).recurMismatch

def loopPass (rec : Analyzer) (demand : Demand) (bindings : List (Form × Form)) (forms : List Form)
    (boxed : List Bool) : Analysis (Expr × List Bool) := Analysis.nested do
  let inits ← bindAll rec bindings boxed
  let locals := inits.map (·.1)
  let result ← loopBody rec demand locals forms
  return (.bind true inits result, boxMismatched (← Analysis.read id) locals boxed)

/-- Analyzes a loop until no flag changes. -/
def loopPasses (rec : Analyzer) (demand : Demand) (bindings : List (Form × Form)) (forms : List Form) :
    Nat → List Bool → Analysis Expr
  | 0, _ => Analysis.cut
  | passes + 1, boxed => do
    let (e, next) ← loopPass rec demand bindings forms boxed
    if next == boxed then return e else loopPasses rec demand bindings forms passes next

def bind (rec : Analyzer) (demand : Demand) (form : Form) (items : List Form) (isLoop : Bool) :
    Analysis Expr := do
  let bindings ← Analysis.ofExcept (bindingPairs items[1]?)
  if demand == .eval || (isLoop && demand == .expression) then rec demand (wrapInOnceFn form)
  else if isLoop then
    loopPasses rec demand bindings (items.drop 2) (bindings.length + 1) (bindings.map fun _ => false)
  else Analysis.nested do
    let inits ← bindAll rec bindings []
    return .bind false inits (← body rec demand (items.drop 2))

/-- Local functions; every name is visible to all of them. -/
def bindFns (rec : Analyzer) (demand : Demand) (form : Form) (items : List Form) : Analysis Expr := do
  let bindings ← Analysis.ofExcept (bindingPairs items[1]?)
  if demand == .eval then rec demand (wrapInOnceFn form)
  else Analysis.nested do
    let ids ← Analysis.forList (fun (name, _) => do
      let (s, _) ← Analysis.ofExcept (bindingName name)
      let id ← Analysis.registerLocal s none none false
      Analysis.modify (·.modifyBinding id fun b => { b with canBeCleared := false })
      return id) bindings
    let inits ← Analysis.forList (fun (id, _, init) => do
      return (id, ← rec .expression init)) (ids.zip bindings)
    return .bindFns inits (← body rec demand (items.drop 2))

/-! ## Recur -/

/-- Whether a primitive loop local takes a value of this kind. -/
def accepts : Prim → Option Prim → Bool
  | .long, some .long | .long, some .int => true
  | .double, some .double | .double, some .float => true
  | _, _ => false

def typeText : Option StaticType → String
  | some (.prim p) => p.name
  | some (.named c) => c
  | _ => "Object"

/-- Marks a primitive loop local that gets a value of another kind. -/
def checkRecurArg (target : Nat) (arg : Expr) : Analysis PUnit := do
  let c ← Analysis.read id
  let b := c.binding target
  match b.prim with
  | none => return ⟨⟩
  | some p =>
    if accepts p arg.prim? then return ⟨⟩
    else
      Analysis.modify (·.modifyBinding target fun b => { b with recurMismatch := true })
      if c.options.warnOnBoxing then
        Analysis.warn .boxing ("recur arg for primitive local: " ++ b.name.render ++
          " is not matching primitive, had: " ++ typeText arg.staticType ++ ", needed: " ++ p.name)

def recur (rec : Analyzer) (demand : Demand) (items : List Form) : Analysis Expr := do
  let s ← Analysis.scope
  if s.inHandler then Analysis.fail .recurInHandler
  else
    match s.loopLocals, demand with
    | some targets, .tail =>
      if s.noRecur then Analysis.fail .recurAcrossTry
      else
        let args ← Analysis.forList (rec .expression) items.tail
        if args.length != targets.length then
          Analysis.fail (.recurArity targets.length args.length)
        else
          (targets.zip args).forM fun (target, arg) => checkRecurArg target arg
          return .recur targets args s.line
    | _, _ => Analysis.fail .recurNotInTail

end LispMachine.Analyze

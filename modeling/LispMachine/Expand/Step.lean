import LispMachine.Compile.Locals
import LispMachine.Compile.SpecialForm
import LispMachine.Expand.Builtin
import LispMachine.Machine.Execute
/-!
# Expanding a form

A list whose head names an expander is replaced by what the expander makes of it; the short forms of
member access are replaced by the special forms `.` and `new`.  Special forms and locals come first.
An expansion without a place of its own gets the place of the form it replaces.
-/
namespace LispMachine.Expand

def carryPlace (expanded call : Form) : Form :=
  match expanded, call.info? with
  | .list items info, some m =>
    if expanded.line?.isNone then
      .list items (some { info.getD {} with line := m.line, column := m.column })
    else expanded
  | _, _ => expanded

def runBuiltin (e : Expander) (form : Form) (args : List Form) : Analysis Form := do
  match e.expand form args (← Analysis.world).gensym with
  | .ok (expanded, gensym) =>
    Analysis.modify fun c => { c with world := { c.world with gensym } }
    return expanded
  | .error err => Analysis.fail (.expander err.message)

def valueOf (f : Form) : Analysis Value := Analysis.changeWorld fun w =>
  let (v, nextId) := (Value.ofForm f).run w.nextId
  (v, { w with nextId })

/-- The visible locals as a map; the values are all `nil`. -/
def visibleLocals : Analysis Value := do
  let names := (← Analysis.scope).env.reverse.map fun e => (Value.symbol e.1 none, Value.nil)
  Analysis.run (Run.newMap names) fun _ text => .expander text

/-- Calls the function of an expander with the whole form, the visible locals and the arguments. -/
def runFunction (f : Value) (form : Form) (args : List Form) : Analysis Form := do
  let whole ← valueOf form
  let locals ← visibleLocals
  let args ← Analysis.forList valueOf args
  let expansion ← Analysis.run (Machine.call f (whole :: locals :: args)) fun _ text => .expander text
  match expansion.toForm? with
  | .ok f => return f
  | .error v =>
    Analysis.fail (.expander ("Can\x27t embed object in code: " ++ (← Analysis.world).render v))

def invokeExpander (var : Nat) (form : Form) (args : List Form) : Analysis Form := do
  let v := (← Analysis.world).var var
  match v.root with
  | none => Analysis.fail (.expander ("Attempting to call unbound fn: #\x27" ++ v.name.render))
  | some (.native (.expander e)) => runBuiltin e form args
  | some f => runFunction f form args

/-- `(.m x a)` becomes `(. x m a)`, and `(C. a)` becomes `(new C a)`. -/
def memberSugar (name : String) (args : List Form) : Except CompileFault (Option Form) :=
  let cs := name.toList
  if cs.length > 1 && cs.head? == some '.' && name != ".." then
    match args with
    | target :: rest =>
      .ok (some (Expander.call "." (target :: Expander.sym (String.ofList cs.tail) :: rest)))
    | [] => .error .malformedMemberCall
  else if cs.length > 1 && cs.getLast? == some '.' then
    .ok (some (Expander.call "new" (Expander.sym (String.ofList cs.dropLast) :: args)))
  else .ok none

/-- Member sugar, for a head that names no expander. -/
def sugar (head : Symbol) (args : List Form) : Analysis (Option Form) := do
  match head.ns with
  | none => Analysis.ofExcept (memberSugar head.name args)
  | some ns =>
    let w ← Analysis.world
    if (w.findNs? ns).isNone && (w.classes.lookup? ns).isSome then
      return some (Expander.call "." (Expander.sym ns :: Expander.sym head.name :: args))
    else return none

/-- Expands once; none if there is nothing to expand. -/
def once (form : Form) : Analysis (Option Form) := do
  match form with
  | .list (.symbol head _ :: args) _ =>
    if (SpecialForm.ofSymbol? head).isSome || (← Analysis.lookupLocal? head).isSome then return none
    else
      let w ← Analysis.world
      match (w.resolve? head).filter fun v => (w.var v).isMacro with
      | some var => return some (carryPlace (← invokeExpander var form args) form)
      | none => return (← sugar head args).map fun f => carryPlace f form
  | _ => return none

/-- Expands until the head names no expander; the first argument bounds the number of steps. -/
def fully : Nat → Form → Analysis Form
  | 0, _ => Analysis.cut
  | fuel + 1, form => do
    match ← once form with
    | some next => fully fuel next
    | none => return form

end LispMachine.Expand

import LispMachine.Analyze.Attempt
import LispMachine.Analyze.Binding
import LispMachine.Analyze.Case
import LispMachine.Analyze.Function
import LispMachine.Analyze.Member
import LispMachine.Analyze.Special
import LispMachine.Expand.Step
/-!
# The analysis of forms

A list is expanded first; then its head decides: a special form, or else a call.  An error gets the
place of the innermost list around it that has one.
-/
namespace LispMachine.Analyze

/-! ## Calls -/

/-- The static member that stands for a call of a core function. -/
def inlineCall (i : CoreFn.Inline) (args : List Form) : Form :=
  .ofItems [Form.sym ".", Form.sym i.className, .ofItems (Form.sym i.member :: args)]

/-- Calls of a var that are more than a call: an inlined core function, or a protocol method. -/
def varCall? (rec : Analyzer) (demand : Demand) (s : Symbol) (args : List Form) (line : Nat) :
    Analysis (Option Expr) := do
  let w ← Analysis.world
  match (w.resolve? s).filter fun v => !(w.var v).isMacro with
  | none => return none
  | some id =>
    let v := w.var id
    match v.inline.filter fun i => i.arities.contains args.length with
    | some i => return some (← rec demand (inlineCall i args))
    | none =>
      if (v.info.lookup "protocol").isSome && !args.isEmpty then
        let args ← operands rec demand args
        return some (.protocolInvoke (varRef w id none) args line)
      else return none

/-- `(instance? Class value)` with a class that is known. -/
def instanceTest? (rec : Analyzer) (demand : Demand) (s : Symbol) (args : List Form) :
    Analysis (Option Expr) := do
  match args with
  | [.symbol c _, value] =>
    let w ← Analysis.world
    if s.isPlain "instance?" && (← Analysis.lookupLocal? c).isNone && !c.isQualified &&
        (w.classes.lookup? c.name).isSome then
      return some (.instanceOf c.name (← rec demand.operand value))
    else return none
  | _ => return none

/-- Calls whose head is a symbol that names no local. -/
def namedCall? (rec : Analyzer) (demand : Demand) (s : Symbol) (args : List Form) (line : Nat) :
    Analysis (Option Expr) := do
  if (← Analysis.lookupLocal? s).isSome then return none
  else
    match ← varCall? rec demand s args line with
    | some e => return some e
    | none => instanceTest? rec demand s args

def plainCall (rec : Analyzer) (demand : Demand) (head : Form) (args : List Form) (line : Nat) :
    Analysis Expr := do
  match head, args with
  | .keyword k, [target] => return .keywordInvoke k (← rec demand.operand target) line
  | _, _ =>
    let f ← rec demand.operand head
    let args ← operands rec demand args
    return .invoke f args line (demand == .tail && (← Analysis.scope).methodReturn)

def invoke (rec : Analyzer) (demand : Demand) (head : Form) (args : List Form) : Analysis Expr := do
  let line := (← Analysis.scope).line
  match head with
  | .symbol s _ =>
    match ← namedCall? rec demand s args line with
    | some e => return e
    | none => plainCall rec demand head args line
  | _ => plainCall rec demand head args line

/-! ## Lists -/

def special (rec : Analyzer) (demand : Demand) (name : SpecialForm) (form : Form) (items : List Form) :
    Analysis Expr :=
  match name with
  | .define => define rec demand items
  | .cond => cond rec demand items
  | .seq => body rec demand items.tail
  | .bind => bind rec demand form items false
  | .loop => bind rec demand form items true
  | .recur => recur rec demand items
  | .fn => fn rec items
  | .quote => quote items
  | .var => theVar items
  | .assign => assign rec demand items
  | .attempt => attempt rec demand form items
  | .throw => throw rec demand form items
  | .case => case rec demand form items
  | .dot => dot rec demand items
  | .new => new rec demand items
  | .bindFns => bindFns rec demand form items
  | .deftype => deftype rec items
  | .reify => reify rec items
  | .handler => Analysis.fail (.unresolvedSymbol "catch")
  | .cleanup => Analysis.fail (.unresolvedSymbol "finally")
  | .ampersand => Analysis.fail (.unresolvedSymbol "&")

def list (rec : Analyzer) (demand : Demand) (form head : Form) (args : List Form) : Analysis Expr := do
  match ← Expand.once form with
  | some expanded => rec demand expanded
  | none =>
    match head.symbol?.bind SpecialForm.ofSymbol? with
    | some name => special rec demand name form (head :: args)
    | none => invoke rec demand head args

/-! ## Collections -/

/-- A collection of literals is a constant itself. -/
def vector (rec : Analyzer) (demand : Demand) (form : Form) (items : List Form) : Analysis Expr := do
  let es ← operands rec demand items
  return if es.all Expr.isLiteral then .const (form.withInfo none) else .vector es

def set (rec : Analyzer) (demand : Demand) (form : Form) (items : List Form) : Analysis Expr := do
  checkKeys items
  let es ← operands rec demand items
  return if es.all Expr.isLiteral then .const (form.withInfo none) else .set es

def map (rec : Analyzer) (demand : Demand) (form : Form) (pairs : List (Form × Form)) :
    Analysis Expr := do
  checkKeys (pairs.map (·.1))
  let es ← Analysis.forList (fun (k, v) => do
    let k ← rec demand.operand k
    return (k, ← rec demand.operand v)) pairs
  return if es.all fun e => e.1.isLiteral && e.2.isLiteral then .const (form.withInfo none) else .map es

/-! ## All forms -/

/-- Analyzes a form, given an analysis of its parts and of what it expands to. -/
def formWith (rec : Analyzer) (demand : Demand) (f : Form) : Analysis Expr :=
  match f with
  | .nil => return .nil
  | .bool b => return .bool b
  | .long n => return .long n
  | .double d => return .double d
  | .char _ | .str _ | .keyword _ => return .const f
  | .symbol s info => symbol s info
  | .list [] _ => return .const f
  | .list (head :: args) _ => Analysis.nested do
    Analysis.modify (·.moveTo f)
    Analysis.located (list rec demand f head args)
  | .vector items _ => vector rec demand f items
  | .map pairs _ => map rec demand f pairs
  | .set items _ => set rec demand f items

/-- Analyzes a form; the first argument bounds the depth to which forms and expansions nest. -/
def formWithin : Nat → Demand → Form → Analysis Expr
  | 0, _, _ => Analysis.cut
  | fuel + 1, demand, f => formWith (formWithin fuel) demand f

/-- More levels than any session lives to see. -/
def allowance : Nat := Nat.pow 2 60

def form (demand : Demand) (f : Form) : Analysis Expr := formWithin allowance demand f

end LispMachine.Analyze

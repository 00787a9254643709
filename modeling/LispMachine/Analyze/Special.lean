import LispMachine.Analyze.Basic
/-!
# Definitions, conditions, quotation and assignment
-/
namespace LispMachine.Analyze

/-! ## Definitions -/

def definitionParts : List Form → Except CompileFault (Option String × Option Form)
  | [_, _, .str doc, init] => .ok (some doc, some init)
  | _ :: _ :: _ :: _ :: _ => .error (.tooManyArguments "def")
  | [_, _, init] => .ok (none, some init)
  | [_, _] => .ok (none, none)
  | _ => .error (.tooFewArguments "def")

def definitionInfo (entries : List (Form × Form)) (doc : Option String) : Form :=
  match doc with
  | some text =>
    .ofPairs (entries.filter (fun e => !(e.1 == Form.kw "doc")) ++ [(Form.kw "doc", .str text)])
  | none => .ofPairs entries

/-- A name like `*this*`. -/
def hasEarmuffs (name : String) : Bool :=
  let cs := name.toList
  cs.length > 2 && cs.head? == some '*' && cs.getLast? == some '*'

def dynamicWarning (name : String) : String :=
  "Warning: " ++ name ++ " not declared dynamic and thus is not dynamically rebindable, " ++
  "but its name suggests otherwise. Please either indicate ^:dynamic " ++ name ++
  " or change the name."

/-- A definition makes its var at once, so that the initial value can refer to it. -/
def define (rec : Analyzer) (demand : Demand) (items : List Form) : Analysis Expr := do
  let (doc, init) ← Analysis.ofExcept (definitionParts items)
  match items with
  | _ :: .symbol s info :: _ =>
    let current := (← Analysis.world).current
    if s.ns.any (· != current) then Analysis.fail .defOutsideNamespace
    else
      let id ← Analysis.changeWorld (·.intern current s.name)
      let info := info.getD {}
      let dynamic := info.flag "dynamic"
      Analysis.changeWorld fun w => ((), w.modifyVar id fun v => { v with dynamic })
      if !dynamic && hasEarmuffs s.name then Analysis.warn .dynamic (dynamicWarning s.name)
      let init ← match init with
        | some f => do pure (some (← rec demand.operand f))
        | none => pure none
      return .define (varRef (← Analysis.world) id none) init (definitionInfo info.entries doc)
  | _ => Analysis.fail .defNameNotSymbol

/-! ## Conditions -/

def cond (rec : Analyzer) (demand : Demand) (items : List Form) : Analysis Expr := do
  if items.length > 4 then Analysis.fail (.tooManyArguments "if")
  else
    match items with
    | _ :: test :: yes :: rest =>
      let line := (← Analysis.scope).line
      let test ← rec demand.operand test
      let branch ← Analysis.addPath .branch (← Analysis.scope).clearPath
      let yes ← Analysis.arm branch (rec demand yes)
      let no ← Analysis.arm branch (rec demand (rest.headD .nil))
      return .cond test yes no line
    | _ => Analysis.fail (.tooFewArguments "if")

/-! ## Quotation, vars, assignment and throwing -/

def quote (items : List Form) : Analysis Expr :=
  match items with
  | [_, .nil] => return .nil
  | [_, .bool b] => return .bool b
  | [_, .long n] => return .long n
  | [_, .double d] => return .double d
  | [_, f] => return .const f
  | _ => Analysis.fail (.quoteArity (items.length - 1))

def theVar (items : List Form) : Analysis Expr := do
  match items with
  | [_, .symbol s _] =>
    let w ← Analysis.world
    match w.resolve? s with
    | some v => return .theVar (varRef w v none)
    | none => Analysis.fail (.unresolvedVar s)
  | _ => Analysis.fail .malformedVar

/-- A local may be assigned only if it is a mutable field of the type whose method this is. -/
def assignableField (binding : Nat) : Analysis AssignTarget := do
  let c ← Analysis.read id
  let own := c.currentObject?.any fun o => o.kind == .type && (o.fieldIndex? binding).isSome
  if own && (c.binding binding).isMutable then
    Analysis.modify (·.closeOver binding)
    return .field binding
  else Analysis.fail (.notAssignable (c.binding binding).name.render)

def assign (rec : Analyzer) (demand : Demand) (items : List Form) : Analysis Expr := do
  match items with
  | [_, .symbol s info, value] =>
    let target ← match ← Analysis.lookupLocal? s with
      | some b => assignableField b
      | none => do
        match ← symbol s info with
        | .var v => pure (.var v)
        | _ => Analysis.fail .invalidAssignmentTarget
    return .assign target (← rec demand.operand value)
  | [_, _, _] => Analysis.fail .invalidAssignmentTarget
  | _ => Analysis.fail .malformedAssignment

def throw (rec : Analyzer) (demand : Demand) (form : Form) (items : List Form) : Analysis Expr := do
  match items with
  | [_, value] =>
    if demand == .eval then rec demand (wrapInOnceFn form)
    else return .throw (← rec .expression value)
  | _ :: _ :: _ => Analysis.fail (.tooManyArguments "throw")
  | _ => Analysis.fail (.tooFewArguments "throw")

end LispMachine.Analyze

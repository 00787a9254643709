import LispMachine.Analyze.Basic
/-!
# Host members

`(. target member args)` and `(new Class args)`.  A member is looked for in the class table when the
class of the target is known.  Of the overloads with the right number of parameters the one with the
cheapest conversions wins; two equally cheap ones are an error.  What stays open is left to the run,
with a warning, or rejected in strict mode.
-/
namespace LispMachine.Analyze

/-! ## Overloads -/

def isSubclassNamed (t : ClassTable) (sub super : String) : Bool :=
  match t.lookup? sub, t.lookup? super with
  | some a, some b => t.isSubclass a.id b.id
  | _, _ => false

/-- What it costs to pass a value of a static type to a parameter; none if it cannot be passed. -/
def paramCost? (t : ClassTable) : Option StaticType → HostType → Option Nat
  | none, .object | some .recur, .object => some 0
  | none, .named _ | some .recur, .named _ => some 1
  | none, _ | some .recur, _ => none
  | some (.prim p), .prim q =>
    if p == q then some 0
    else if (p == .int && q == .long) || (p == .float && q == .double) then some 1
    else none
  | some (.prim _), .object => some 2
  | some (.prim p), .named c => if c == p.boxedClass then some 2 else none
  | some (.named c), .named d =>
    if c == d then some 0 else if isSubclassNamed t c d then some 1 else none
  | some (.named _), .object => some 2
  | some (.named c), .prim p => if c == p.boxedClass then some 3 else none
  | some _, .void => none

def callCost? (t : ClassTable) : List (Option StaticType) → List HostType → Option Nat
  | a :: as, p :: ps => do
    let cost ← paramCost? t a p
    return cost + (← callCost? t as ps)
  | _, _ => some 0

/-- The cheapest candidate so far, and whether another one costs the same. -/
structure Cheapest where
  cost : Nat
  member : HostMember
  tied : Bool

def Cheapest.add (best : Option Cheapest) (cost : Nat) (m : HostMember) : Option Cheapest :=
  match best with
  | some b =>
    if cost > b.cost then some b
    else if cost == b.cost then some { b with tied := true }
    else some ⟨cost, m, false⟩
  | none => some ⟨cost, m, false⟩

/-- The overload that a call means.  A single candidate is taken whatever its parameters are. -/
def selectOverload (t : ClassTable) (candidates : List HostMember) (args : List Expr) (name : String) :
    Except CompileFault (Option HostMember) :=
  match candidates.filter fun m => m.params.length == args.length with
  | [only] => .ok (some only)
  | fitting =>
    let types := args.map Expr.staticType
    let best := fitting.foldl (fun best m =>
      match callCost? t types m.params with
      | some cost => Cheapest.add best cost m
      | none => best) none
    match best with
    | some b => if b.tied then .error (.ambiguousMember name) else .ok (some b.member)
    | none => .ok none

def resolveMember (c : Class) (kind : HostKind) (name : String) (args : List Expr)
    (missing : CompileFault) : Analysis (Option HostRef) := do
  let w ← Analysis.world
  let candidates := w.classes.findMembers c kind name
  if candidates.any fun m => m.params.length == args.length then
    return (← Analysis.ofExcept (selectOverload w.classes candidates args name)).map (hostRef c.name)
  else Analysis.fail missing

/-! ## Member access -/

/-- The class that a form names, unless a local has that name. -/
def classNamed? (f : Form) : Analysis (Option Class) := do
  match f with
  | .symbol s _ =>
    if s.isQualified || (← Analysis.lookupLocal? s).isSome then return none
    else return (← Analysis.world).classes.lookup? s.name
  | _ => return none

def staticMember (rec : Analyzer) (demand : Demand) (c : Class) (name : String) (args : List Form)
    (parenthesized : Bool) (line : Nat) : Analysis Expr := do
  let w ← Analysis.world
  let field? : Option HostMember :=
    if args.isEmpty && !parenthesized then (w.classes.findMembers c .staticField name).head? else none
  match field? with
  | some field => return .staticField c.name (hostRef c.name field)
  | none =>
    let args ← operands rec demand args
    let member ← resolveMember c .staticMethod name args (.noMatchingMethod name args.length c.name)
    if member.isNone then
      Analysis.reflects ("call to static method " ++ name ++ " on " ++ c.name ++
        " can\x27t be resolved (argument types: unknown)")
    return .staticCall c.name name member args line

def knownField? (c : Option Class) (name : String) : Option FieldRef := do
  let c ← c
  let declared ← c.declared
  let index ← declared.fieldIndex? name
  return { type := c.name, index, prim := (declared.fields[index]?).bind (·.prim) }

/-- Whether a class of the host has a method of that name without parameters. -/
def hasPlainMethod (t : ClassTable) (c : Option Class) (name : String) : Bool :=
  match c with
  | some c =>
    c.declared.isNone && (t.findMembers c .method name).any fun m => m.params.isEmpty
  | none => false

def instanceField (c : Option Class) (target : Expr) (name fieldName : String) (args : List Expr)
    (line : Nat) : Analysis Expr := do
  if !args.isEmpty then Analysis.fail (.fieldWithArguments name)
  else
    let known := knownField? c fieldName
    let onHost := (c.map fun c => c.declared.isNone).getD true
    if known.isNone && onHost then
      Analysis.reflects ("reference to field " ++ fieldName ++ " can\x27t be resolved")
    return .fieldGet target name known line

def instanceMethod (c : Option Class) (target : Expr) (name : String) (args : List Expr) (line : Nat) :
    Analysis Expr := do
  match c with
  | some c =>
    if c.declared.isSome then return .methodCall target name none args line
    else
      let member ← resolveMember c .method name args (.noMatchingMethod name args.length c.name)
      if member.isNone then
        Analysis.reflects ("call to method " ++ name ++ " on " ++ c.name ++
          " can\x27t be resolved (argument types: unknown)")
      return .methodCall target name member args line
  | none =>
    Analysis.reflects ("call to method " ++ name ++ " can\x27t be resolved (target class is unknown)")
    return .methodCall target name none args line

/-- A member of an object: a field if the name starts with a dash, or if it is written like one and
no method of the host is meant. -/
def instanceMember (rec : Analyzer) (demand : Demand) (target : Form) (name : String) (args : List Form)
    (parenthesized : Bool) (line : Nat) : Analysis Expr := do
  let target ← rec demand.operand target
  let args ← operands rec demand args
  let w ← Analysis.world
  let c := (target.staticType.bind StaticType.className?).bind w.classes.lookup?
  let dashed? : Option String := match name.toList with
    | '-' :: rest => some (String.ofList rest)
    | _ => none
  let fieldName := dashed?.getD name
  let fieldLike := dashed?.isSome || (args.isEmpty && !parenthesized)
  if fieldLike && (dashed?.isSome || (knownField? c fieldName).isSome ||
      !hasPlainMethod w.classes c name) then
    instanceField c target name fieldName args line
  else instanceMethod c target name args line

/-- `(. target member args)` or `(. target (member args))`. -/
def dot (rec : Analyzer) (demand : Demand) (items : List Form) : Analysis Expr := do
  let line := (← Analysis.scope).line
  let go (target : Form) (name : String) (args : List Form) (parenthesized : Bool) : Analysis Expr := do
    match ← classNamed? target with
    | some c => staticMember rec demand c name args parenthesized line
    | none => instanceMember rec demand target name args parenthesized line
  match items with
  | _ :: target :: .symbol s _ :: args => go target s.name args false
  | [_, target, .list (.symbol s _ :: args) _] => go target s.name args true
  | _ :: _ :: _ :: _ => Analysis.fail .malformedMember
  | _ => Analysis.fail .malformedDot

def new (rec : Analyzer) (demand : Demand) (items : List Form) : Analysis Expr := do
  match items with
  | _ :: .symbol s _ :: args =>
    match (← Analysis.world).classes.lookup? s.name with
    | none => Analysis.fail (.unresolvedClass s.render)
    | some c =>
      let line := (← Analysis.scope).line
      let args ← operands rec demand args
      match c.declared with
      | some declared =>
        if declared.fields.length != args.length then Analysis.fail (.noMatchingConstructor c.name)
        else return .construct c.name none true args line
      | none =>
        let member ← resolveMember c .constructor "new" args (.noMatchingConstructor c.name)
        if member.isNone then
          Analysis.reflects ("call to " ++ c.name ++ " ctor can\x27t be resolved")
        return .construct c.name member false args line
  | _ => Analysis.fail .malformedNew

end LispMachine.Analyze

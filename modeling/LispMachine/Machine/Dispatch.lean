import LispMachine.Machine.Frame
/-!
# Finding what a call runs

A call is either answered at once or leads to another call, to a method body, or to a series of calls
that the core library asked for.  Nothing here runs a method body.
-/
namespace LispMachine.Machine

inductive Answer where
  | value (v : Value)
  /-- Run a method body on a receiver. -/
  | enter (unit : Nat) (method : Method) (this : Value) (args : List Value)
  | again (f : Value) (args : List Value)
  | map (f : Value) (rows : List (List Value))
  | filter (f : Value) (items : List Value)
  | reduce (f init : Value) (items : List Value)
  deriving Inhabited

def Answer.ofReply : Core.Reply → Answer
  | .value v => .value v
  | .again f args => .again f args
  | .map f rows => .map f rows
  | .filter f items => .filter f items
  | .reduce f init items => .reduce f init items

def loadedUnit (w : World) (unit : Nat) : LoadedUnit := (w.units[unit]?).getD default

def methodNamed? (w : World) (unit : Nat) (name : String) (argc : Nat) : Option Method :=
  (loadedUnit w unit).unit.methods.find? fun m => m.name == name && m.accepts argc

/-! ## Protocols -/

def noImplementation (p : Protocol) (method : String) (target : Value) : Failure :=
  .illegalArgument ("No implementation of method: :" ++ method ++ " of protocol: #\x27" ++
    p.name.render ++ " found for class: " ++ target.className)

/-- Runs a dispatcher; `method` is the name that diagnostics give. -/
def runDispatcher (id : Nat) (method : String) (args : List Value) : Run Answer := do
  let w ← Run.world
  match w.dispatchers.entries[id]? with
  | some (.fn f) => return .again f args
  | some (.method unit name) =>
    let this := args.head?.getD .nil
    match methodNamed? w unit name args.tail.length with
    | some m => return .enter unit m this args.tail
    | none => Run.raise (.arity (args.tail.length + 1) method)
  | some (.field i) =>
    match args.head? with
    | some (.inst obj _ _) => return .value (((w.fieldsOf obj)[i]?).getD Slot.empty).toValue
    | _ => Run.raise (.internal "field dispatch on a non-instance")
  | some .lookup => Run.raise (.internal "lookup dispatcher on a protocol site")
  | none => Run.raise (.internal "unknown dispatcher")

/-- A protocol method called as a value: the implementation is looked for afresh. -/
def callProtocolMethod (p : Nat) (name : String) (args : List Value) : Run Answer := do
  match args.head? with
  | none => Run.raise (.arity 0 name)
  | some target =>
    let w ← Run.world
    let protocol := (w.protocols[p]?).getD default
    match protocol.find? name target.classId w.classes with
    | some d => runDispatcher d name args
    | none => Run.raise (noImplementation protocol name target)

def modifyProtocolSite (unit site : Nat) (f : ProtocolSite → ProtocolSite) : Run PUnit :=
  Run.modify fun w => { w with units := w.units.modify unit fun u =>
    { u with protocolSites := u.protocolSites.modify site f } }

/-- A protocol call in compiled code: the pair remembered at the site is used if it is for the class
of the receiver and no implementation was registered since. -/
def protocolInvoke (unit site : Nat) (args : List Value) : Run Answer := do
  let w ← Run.world
  match (loadedUnit w unit).protocolSites[site]? with
  | none => Run.raise (.internal "protocol site out of range")
  | some cell =>
    let target := args.head?.getD .nil
    let type := target.classId
    let protocol := (w.protocols[cell.protocol]?).getD default
    let current := if cell.generation == protocol.generation then cell.site else cell.site.invalidate
    let (found, current) := current.lookup (UInt32.ofNat type)
    modifyProtocolSite unit site fun c => { c with site := current, generation := protocol.generation }
    match found with
    | some d => runDispatcher d.toNat cell.method args
    | none =>
      match protocol.find? cell.method type w.classes with
      | none => Run.raise (noImplementation protocol cell.method target)
      | some d =>
        modifyProtocolSite unit site fun c =>
          { c with site := c.site.install (UInt32.ofNat type) (UInt32.ofNat d) }
        runDispatcher d cell.method args

/-! ## Keywords -/

def modifyKeywordSite (unit site : Nat) (f : KeywordSite → KeywordSite) : Run PUnit :=
  Run.modify fun w => { w with units := w.units.modify unit fun u =>
    { u with keywordSites := u.keywordSites.modify site f } }

/-- The dispatcher for a keyword on a receiver: a field of an instance, or else the lookup. -/
def keywordDispatcher (k : Keyword) (target : Value) : Run Nat := do
  match target with
  | .inst _ type _ =>
    if k.ns.isNone then
      match ((← Run.world).typeDef? type).bind (·.fieldIndex? k.name) with
      | some i => Run.change fun w =>
        let (d, dispatchers) := w.dispatchers.field type i
        (d, { w with dispatchers })
      | none => return DispatcherTable.lookupId
    else return DispatcherTable.lookupId
  | _ => return DispatcherTable.lookupId

def keywordInvoke (unit site : Nat) (target : Value) : Run Value := do
  let w ← Run.world
  match (loadedUnit w unit).keywordSites[site]? with
  | none => Run.raise (.internal "keyword site out of range")
  | some cell =>
    let type := UInt32.ofNat target.classId
    let (found, current) := cell.site.lookup type
    modifyKeywordSite unit site fun c => { c with site := current }
    let d ← match found with
      | some d => pure d.toNat
      | none => do
        let d ← keywordDispatcher cell.keyword target
        modifyKeywordSite unit site fun c => { c with site := c.site.install type (UInt32.ofNat d) }
        pure d
    let w ← Run.world
    match w.dispatchers.entries[d]?, target with
    | some (.field i), .inst obj _ _ => return (((w.fieldsOf obj)[i]?).getD Slot.empty).toValue
    | _, _ => return Coll.get w target (.keyword cell.keyword) .nil

/-! ## Values in call position -/

/-- Looks a value up: keywords look themselves up in their argument, collections look it up in
themselves. -/
def lookupCall (w : World) (f coll otherwise : Value) : Value :=
  match f with
  | .keyword _ => Coll.get w coll f otherwise
  | _ => Coll.get w f coll otherwise

def invoke (f : Value) (args : List Value) : Run Answer := do
  match f with
  | .fn _ unit name =>
    match (loadedUnit (← Run.world) unit).unit.methodFor? args.length with
    | some m => return .enter unit m f args
    | none => Run.raise (.arity args.length name)
  | .native (.fn g) => return Answer.ofReply (← Core.call g args)
  | .native (.expander e) =>
    Run.raise (.illegalState ("Can\x27t take value of a macro: " ++ e.name))
  | .var id _ => do return .again (← Run.ofExcept ((← Run.world).varGet id)) args
  | .keyword _ | .map .. | .set .. =>
    match args with
    | [coll] => return .value (lookupCall (← Run.world) f coll .nil)
    | [coll, otherwise] => return .value (lookupCall (← Run.world) f coll otherwise)
    | _ => Run.raise (.arity args.length ((← Run.world).render f))
  | .vector .. =>
    match args with
    | [.long i] => return .value (← Run.ofExcept (Coll.nth f i none))
    | [other] => Run.raise (.illegalArgument ("Key must be integer, got " ++ other.className))
    | _ => Run.raise (.arity args.length "vector")
  | .protocolMethod _ p name => callProtocolMethod p name args
  | other => Run.raise (.classCast other "IFn")

/-! ## Reflection -/

/-- Whether a parameter takes a value when the call is resolved at run time. -/
def accepts (classes : ClassTable) (param : HostType) (v : Value) : Bool :=
  match param, v with
  | .object, _ => true
  | .prim .long, .long _ => true
  | .prim .int, .long _ => true
  | .prim .double, .double _ => true
  | .prim .double, .long _ => true
  | .prim .float, .double _ => true
  | .prim .float, .long _ => true
  | .prim .bool, .bool _ => true
  | .named _, .nil => true
  | .named name, v =>
    match classes.lookup? name with
    | some c => classes.isSubclass v.classId c.id
    | none => false
  | _, _ => false

def acceptsAll (classes : ClassTable) : List HostType → List Value → Bool
  | [], [] => true
  | p :: ps, v :: vs => accepts classes p v && acceptsAll classes ps vs
  | _, _ => false

def toSlot (param : HostType) (v : Value) : Except Failure Slot :=
  match param.prim? with
  | some p => Slot.unbox v p
  | none => .ok (.obj v)

def resultSlot (m : HostMember) (s : Slot) : Slot :=
  match m.ret with
  | .void => Slot.empty
  | _ => s

/-- Calls the first member that takes the arguments, or fails. -/
def callMatching (candidates : List HostMember) (receiver : Option Value) (args : List Value)
    (otherwise : Failure) : Run Value := do
  let classes := (← Run.world).classes
  match candidates.find? fun m => acceptsAll classes m.params args with
  | none => Run.raise otherwise
  | some m =>
    let slots ← Run.ofExcept ((m.params.zip args).mapM fun (p, v) => toSlot p v)
    let first := match receiver with
      | some r => [Slot.obj r]
      | none => []
    return (resultSlot m (← Host.call m.op (first ++ slots))).toValue

/-- A method call on a receiver whose class is not known before. -/
def invokeMethod (target : Value) (name : String) (args : List Value) : Run Answer := do
  let w ← Run.world
  let host : Run Answer := do
    match w.classes.get? target.classId with
    | none => Run.raise (.illegalArgument ("No class for " ++ target.className))
    | some c =>
      return .value (← callMatching (w.classes.findMembers c .method name) (some target) args
        (.illegalArgument ("No matching method " ++ name ++ " found taking " ++
          toString args.length ++ " args for class " ++ target.className)))
  match target with
  | .nil => Run.raise (.nullPointer ("Cannot invoke method " ++ name ++ " on nil"))
  | .inst obj type _ =>
    match (if args.isEmpty then w.fieldNamed? obj type name else none) with
    | some v => return .value v
    | none =>
      match (w.typeDef? type).bind (·.methods) with
      | some unit =>
        match methodNamed? w unit name args.length with
        | some m => return .enter unit m target args
        | none => host
      | none => host
  | _ => host

/-- A static call that no overload was chosen for before. -/
def invokeStatic (className name : String) (args : List Value) : Run Value := do
  let w ← Run.world
  match w.classes.lookup? className with
  | none => Run.raise (.illegalArgument ("Unable to resolve classname: " ++ className))
  | some c =>
    match (if args.isEmpty then (c.membersNamed .staticField name).head? else none) with
    | some m => return (← Host.call m.op []).toValue
    | none =>
      callMatching (w.classes.findMembers c .staticMethod name) none args
        (.illegalArgument ("No matching method " ++ name ++ " found for class " ++ className))

/-- A field, or a method without arguments, of a receiver whose class is not known before. -/
def getField (target : Value) (name : String) : Run Answer := do
  let dashed := name.startsWith "-"
  let field := if dashed then String.ofList (name.toList.drop 1) else name
  let w ← Run.world
  let own := match target with
    | .inst obj type _ => w.fieldNamed? obj type field
    | _ => none
  match own with
  | some v => return .value v
  | none =>
    if dashed then
      Run.raise (.illegalArgument
        ("No matching field found: " ++ field ++ " for class " ++ target.className))
    else invokeMethod target name []

def fieldSlots (fields : List Capture) (args : List Value) : Except Failure (List Slot) :=
  (fields.zip args).mapM fun (f, v) =>
    match f.prim with
    | some p => Slot.unbox v p
    | none => .ok (.obj v)

def construct (type : ClassId) (args : List Value) : Run Value := do
  let w ← Run.world
  match w.classes.get? type with
  | none => Run.raise (.illegalArgument ("No class with id " ++ toString type))
  | some c =>
    let noCtor : Failure := .illegalArgument ("No matching ctor found for class " ++ c.name)
    match c.declared with
    | some d =>
      if args.length != d.fields.length then Run.raise noCtor
      else
        let slots ← Run.ofExcept (fieldSlots d.fields args)
        let obj ← Run.change fun w => w.allocFields slots.toArray
        return .inst obj type c.name
    | none => callMatching (w.classes.findMembers c .constructor "new") none args noCtor

end LispMachine.Machine

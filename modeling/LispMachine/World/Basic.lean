import LispMachine.World.Var
import LispMachine.World.Protocol
import LispMachine.CallSite
import LispMachine.Slot
import LispMachine.Value.Printer
/-!
# The world

Everything that a running program can change, as one value: vars and namespaces, classes, protocols,
loaded units with their call sites, the fields of closures and instances, the texts of builders, the
thread bindings and the printed text.  Two counters supply numbers for generated names and
identities for new values.
-/
namespace LispMachine

structure KeywordSite where
  keyword : Keyword
  site : CallSite
  deriving Inhabited

structure ProtocolSite where
  protocol : Nat
  method : String
  site : CallSite
  /-- The generation of the protocol under which the remembered pair was found. -/
  generation : Nat
  deriving Inhabited

structure LoadedUnit where
  unit : CompiledUnit
  constants : Array Value
  /-- The host members among the constants, at the same positions. -/
  hosts : Array (Option HostMember)
  keywordSites : Array KeywordSite
  protocolSites : Array ProtocolSite
  children : Array Nat
  deriving Inhabited

def coreNs : String := "kiln.core"

def userNs : String := "user"

structure World where
  vars : Array Var
  namespaces : List Namespace
  current : String
  classes : ClassTable
  protocols : Array Protocol := #[]
  dispatchers : DispatcherTable := {}
  units : Array LoadedUnit := #[]
  /-- The fields of closures and instances. -/
  fields : Array (Array Slot) := #[]
  /-- The texts of builders. -/
  builders : Array String := #[]
  /-- Thread bindings, the innermost frame first. -/
  bindings : List (List (Nat × Value)) := []
  /-- The text printed so far. -/
  out : String := ""
  /-- The next number for a generated name. -/
  gensym : Nat := 1
  /-- The next free identity. -/
  nextId : Nat := 1
  /-- Nanoseconds since the epoch. -/
  clock : Nat := 1700000000000000000
  /-- The deepest nesting of method activations.  How many there is room for depends on the stack that the machine is given,
  and they are never more than 100000; nothing that is proved here depends on the number. -/
  depthLimit : Nat := 5000
  /-- A run has given up in this world. -/
  aborted : Bool := false

namespace World

/-! ## Namespaces and vars -/

def findNs? (w : World) (name : String) : Option Namespace :=
  w.namespaces.find? fun ns => ns.name == name

def ensureNs (w : World) (name : String) : World :=
  match w.findNs? name with
  | some _ => w
  | none => { w with namespaces := w.namespaces ++ [{ name := name }] }

def findIn? (w : World) (ns name : String) : Option Nat :=
  (w.findNs? ns).bind fun ns => ns.vars.lookup name

def mapName (ns name : String) (id : Nat) : List Namespace → List Namespace
  | [] => []
  | n :: rest =>
    if n.name == ns then { n with vars := n.vars ++ [(name, id)] } :: rest
    else n :: mapName ns name id rest

/-- The var of that name in a namespace, made if there is none. -/
def intern (w : World) (ns name : String) : Nat × World :=
  let w := w.ensureNs ns
  match w.findIn? ns name with
  | some id => (id, w)
  | none =>
    let id := w.vars.size
    (id, { w with
      vars := w.vars.push { name := ⟨some ns, name⟩ }
      namespaces := mapName ns name id w.namespaces })

/-- The var a symbol stands for.  An unqualified one is looked for in the current namespace and then
in the core library. -/
def resolve? (w : World) (s : Symbol) : Option Nat :=
  match s.ns with
  | some ns => w.findIn? ns s.name
  | none => (w.findIn? w.current s.name).or (w.findIn? coreNs s.name)

def var (w : World) (id : Nat) : Var := (w.vars[id]?).getD default

def modifyVar (w : World) (id : Nat) (f : Var → Var) : World := { w with vars := w.vars.modify id f }

def varValue (w : World) (id : Nat) : Value := .var id (w.var id).name

/-- The innermost thread binding of a var, if the var is dynamic. -/
def threadValue? (w : World) (id : Nat) : Option Value :=
  if (w.var id).dynamic then w.bindings.findSome? (·.lookup id) else none

/-- The value of a var: its innermost thread binding, or else its root. -/
def varGet (w : World) (id : Nat) : Except Failure Value :=
  match (w.threadValue? id).or (w.var id).root with
  | some v => .ok v
  | none => .error (.illegalState ("Attempting to call unbound fn: #\x27" ++ (w.var id).name.render))

def isBound (w : World) (id : Nat) : Bool := ((w.threadValue? id).or (w.var id).root).isSome

/-- Replaces the value in the innermost frame that binds the var. -/
def setBinding (id : Nat) (value : Value) :
    List (List (Nat × Value)) → Option (List (List (Nat × Value)))
  | [] => none
  | frame :: rest =>
    if frame.any (·.1 == id) then
      some (frame.map (fun e => if e.1 == id then (id, value) else e) :: rest)
    else (setBinding id value rest).map (frame :: ·)

/-- Adds a binding to a frame; an earlier one for the same var is replaced. -/
def bindIn (frame : List (Nat × Value)) (id : Nat) (value : Value) : List (Nat × Value) :=
  (id, value) :: frame.filter (·.1 != id)

/-! ## Types -/

def declareType (w : World) (name : String) (fields : List Capture) (reified : Bool) :
    ClassId × World :=
  let id := w.classes.nextId
  let declared : Class := ⟨id, name, [ClassId.object], [], some ⟨fields, reified, none⟩⟩
  (id, { w with classes := w.classes.insert declared })

def typeDef? (w : World) (id : ClassId) : Option TypeDef := (w.classes.get? id).bind (·.declared)

def isInstance (w : World) (v : Value) (type : ClassId) : Bool := w.classes.isSubclass v.classId type

/-! ## Protocols -/

/-- Registers a new dispatcher for a method of a protocol on a class. -/
def registerImpl (w : World) (p : Nat) (method : String) (type : ClassId) (d : Dispatcher) : World :=
  let (id, dispatchers) := w.dispatchers.register d
  { w with dispatchers, protocols := w.protocols.modify p fun p => p.register method type id }

/-! ## Fields -/

def fieldsOf (w : World) (obj : Nat) : Array Slot := (w.fields[obj]?).getD #[]

/-- A field of an instance by name, boxed. -/
def fieldNamed? (w : World) (obj : Nat) (type : ClassId) (name : String) : Option Value :=
  ((w.typeDef? type).bind (·.fieldIndex? name)).map fun i =>
    (((w.fieldsOf obj)[i]?).getD Slot.empty).toValue

def allocFields (w : World) (slots : Array Slot) : Nat × World :=
  (w.fields.size, { w with fields := w.fields.push slots })

def setField (w : World) (obj i : Nat) (s : Slot) : World :=
  { w with fields := w.fields.modify obj fun fs => fs.modify i fun _ => s }

/-! ## Text -/

def render (w : World) (v : Value) : String := v.render w.builders

def display (w : World) (v : Value) : String := v.display w.builders

/-- A thrown value in a message: an exception by its class and message, any other value as data. -/
def describe (w : World) (v : Value) : String :=
  match v with
  | .exception .. => w.display v
  | v => w.render v

/-! ## The start of a session -/

/-- A world that knows the built-in classes and nothing else. -/
def bare : World :=
  { vars := #[], namespaces := [{ name := coreNs }, { name := userNs }], current := userNs,
    classes := ClassTable.initial }

def defineCore (w : World) (name : String) (f : Var → Var) : World :=
  let (id, w) := w.intern coreNs name
  w.modifyVar id f

def warnOnReflectionName : String := "*warn-on-reflection*"

/-- The world in which every session starts: the core library is installed. -/
def initial : World :=
  let w := CoreFn.all.foldl (fun w f =>
    w.defineCore f.name fun v => { v with root := some (.native (.fn f)), inline := f.inline? }) bare
  Expander.all.foldl (fun w e =>
    w.defineCore e.name fun v => { v with root := some (.native (.expander e)), isMacro := true }) w

/-- Adds the var with which programs turn reflection warnings on. -/
def withCompilerVars (w : World) : World :=
  w.defineCore warnOnReflectionName fun v =>
    { v with root := v.root.or (some (.bool false)), dynamic := true }

end World

end LispMachine

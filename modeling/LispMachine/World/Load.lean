import LispMachine.World.Basic
import LispMachine.Value.OfForm
/-!
# Loading units

Loading links a unit against the world: constants become values, host references are resolved to
members, and every call site gets a cache of its own.  Loading a type unit also attaches its method
bodies to the declared type and registers them with the protocols it names.

What was linked before a failure stays in the world.
-/
namespace LispMachine

inductive LoadError where
  | unknownType (name : String)
  | unknownHostMember (className member : String)
  | notAProtocolMethod (name : String)
  | unknownNamespace (name : String)
  deriving DecidableEq, Repr

def LoadError.name : LoadError → String
  | .unknownType _ => "UnknownType"
  | .unknownHostMember .. => "UnknownHostMember"
  | .notAProtocolMethod _ => "NotAProtocolMethod"
  | .unknownNamespace _ => "UnknownNamespace"

def LoadError.message : LoadError → String
  | .unknownType name => "unknown type: " ++ name
  | .unknownHostMember className member =>
    "no host member " ++ className ++ "." ++ member ++ " with the expected signature"
  | .notAProtocolMethod name => "var " ++ name ++ " is not a protocol method"
  | .unknownNamespace name => "no such namespace: " ++ name

namespace World

abbrev Linking := ExceptT LoadError (StateM World)

/-- The var of a qualified name in an existing namespace, made if there is none. -/
def linkVar (s : Symbol) : Linking Nat := do
  match s.ns with
  | none => throw (.unknownNamespace s.render)
  | some ns =>
    if ((← get).findNs? ns).isNone then throw (.unknownNamespace ns)
    else modifyGet fun w => w.intern ns s.name

/-- The member with exactly the signature that is asked for. -/
def findHost? (w : World) (r : HostRef) : Option HostMember := do
  let c ← w.classes.lookup? r.className
  let name := if r.kind == .constructor then "new" else r.member
  (w.classes.findMembers c r.kind name).find? fun m => m.params == r.params && m.ret == r.ret

def linkConstant : Constant → Linking (Value × Option HostMember)
  | .form f => do
    let v ← modifyGet fun w =>
      let (v, nextId) := (Value.ofForm f).run w.nextId
      (v, { w with nextId })
    return (v, none)
  | .var s => do
    let id ← linkVar s
    return ((← get).varValue id, none)
  | .type name => do
    match (← get).classes.lookup? name with
    | some c => return (.type c.id c.name, none)
    | none => throw (.unknownType name)
  | .host r => do
    match (← get).findHost? r with
    | some m => return (.str r.member, some m)
    | none => throw (.unknownHostMember r.className r.member)

def linkProtocolSite (s : Symbol) : Linking ProtocolSite := do
  let id ← linkVar s
  let w ← get
  match (w.var id).root with
  | some (.protocolMethod _ p name) =>
    return { protocol := p, method := name, site := {},
             generation := ((w.protocols[p]?).getD default).generation }
  | _ => throw (.notAProtocolMethod s.render)

/-- Registers the methods of a loaded type unit that a protocol declares. -/
def attachProtocol (unit : Nat) (type : ClassId) (methods : List Method) (s : Symbol) : Linking PUnit := do
  let id ← linkVar s
  let w ← get
  match (w.var id).root with
  | some (.protocol p _) =>
    let declared := ((w.protocols[p]?).getD default).methods
    modify fun w => declared.foldl (fun w name =>
      if methods.any (·.name == name) then w.registerImpl p name type (.method unit name)
      else w) w
  | _ => throw (.unknownType s.render)

def attachType (unit : Nat) (name : String) (protocols : List Symbol) (methods : List Method) :
    Linking PUnit := do
  match (← get).classes.lookup? name with
  | some c =>
    match c.declared with
    | some _ =>
      modify fun w => { w with classes := w.classes.modify c.id fun c =>
        { c with declared := c.declared.map fun d => { d with methods := some unit } } }
      protocols.forM (attachProtocol unit c.id methods)
    | none => throw (.unknownType name)
  | none => throw (.unknownType name)

mutual

/-- Links a unit and the units nested in it; the result is the unit's number. -/
def link : CompiledUnit → Linking Nat
  | ⟨name, kind, methods, closed, constants, keywordSites, protocolSites, children⟩ => do
    let linked ← constants.toList.mapM linkConstant
    let sites ← protocolSites.toList.mapM linkProtocolSite
    let nested ← linkAll children
    let loaded : LoadedUnit := {
      unit := ⟨name, kind, methods, closed, constants, keywordSites, protocolSites, children⟩
      constants := (linked.map (·.1)).toArray
      hosts := (linked.map (·.2)).toArray
      keywordSites := keywordSites.map fun k => ⟨k, {}⟩
      protocolSites := sites.toArray
      children := nested.toArray }
    let id ← modifyGet fun w => (w.units.size, { w with units := w.units.push loaded })
    match kind with
    | .type typeName protocols => attachType id typeName protocols methods
    | .fn _ => pure ⟨⟩
    return id

def linkAll : List CompiledUnit → Linking (List Nat)
  | [] => return []
  | u :: us => do
    let id ← link u
    return id :: (← linkAll us)

end

def load (w : World) (u : CompiledUnit) : Except LoadError Nat × World := (link u).run w

/-- A function value for a loaded unit that closes over nothing. -/
def instantiate (w : World) (unit : Nat) : Value × World :=
  let (obj, w) := w.allocFields #[]
  (.fn obj unit (((w.units[unit]?).getD default).unit.name), w)

end World

end LispMachine

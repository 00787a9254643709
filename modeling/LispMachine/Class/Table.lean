import LispMachine.Host.Library
/-!
# The class table

All classes of a session.  A declared type gets the next free number; declaring a name again makes a
new class under the same name, and the old one goes on living under its number.
-/
namespace LispMachine

structure TypeDef where
  fields : List Capture
  /-- The fields are captured locals and cannot be looked up by name. -/
  reified : Bool
  /-- The loaded unit that holds the method bodies, once there is one. -/
  methods : Option Nat

def TypeDef.fieldIndex? (d : TypeDef) (name : String) : Option Nat :=
  if d.reified then none else d.fields.findIdx? (·.name == name)

structure Class where
  id : ClassId
  name : String
  supers : List ClassId
  members : List HostMember
  declared : Option TypeDef

namespace Class

def membersNamed (c : Class) (kind : HostKind) (name : String) : List HostMember :=
  c.members.filter fun m => m.kind == kind && m.name == name

end Class

structure ClassTable where
  /-- Classes by their number. -/
  byId : Array (Option Class)
  /-- Numbers by name, the latest declaration first. -/
  byName : List (String × ClassId)

namespace ClassTable

def reserve (t : Array (Option Class)) (size : Nat) : Array (Option Class) :=
  t ++ Array.replicate (size - t.size) none

def insert (t : ClassTable) (c : Class) : ClassTable :=
  { byId := (reserve t.byId (c.id + 1)).modify c.id fun _ => some c
    byName := (c.name, c.id) :: t.byName }

def nextId (t : ClassTable) : ClassId := max t.byId.size ClassId.firstUser

def get? (t : ClassTable) (id : ClassId) : Option Class := (t.byId[id]?).join

def lookup? (t : ClassTable) (name : String) : Option Class := (t.byName.lookup name).bind t.get?

def modify (t : ClassTable) (id : ClassId) (f : Class → Class) : ClassTable :=
  { t with byId := t.byId.modify id (·.map f) }

def supers (t : ClassTable) (id : ClassId) : List ClassId := ((t.get? id).map (·.supers)).getD []

/-- Whether a class is another one or inherits from it, looking so many levels up. -/
def isSubclassWithin (t : ClassTable) : Nat → ClassId → ClassId → Bool
  | 0, id, target => id == target || (target == ClassId.object && id != ClassId.nil)
  | fuel + 1, id, target =>
    id == target || (target == ClassId.object && id != ClassId.nil) ||
      (t.supers id).any fun s => isSubclassWithin t fuel s target

/-- The longest chain of supertypes has far fewer links. -/
def maxAncestry : Nat := 16

/-- Whether a class is another one or inherits from it.  Everything but the class of `nil` inherits
from the class of objects. -/
def isSubclass (t : ClassTable) (id target : ClassId) : Bool := t.isSubclassWithin maxAncestry id target

/-- Adds the members whose parameters are not yet among those found. -/
def addOverloads (found more : List HostMember) : List HostMember :=
  more.foldl (fun found m => if found.any (·.params == m.params) then found else found ++ [m]) found

def findMembersWithin (t : ClassTable) : Nat → Class → HostKind → String → List HostMember
  | 0, c, kind, name => c.membersNamed kind name
  | fuel + 1, c, kind, name =>
    let own := c.membersNamed kind name
    if kind == .method then
      c.supers.foldl (fun found s =>
        match t.get? s with
        | some parent => addOverloads found (findMembersWithin t fuel parent kind name)
        | none => found) own
    else own

/-- The overloads of a member.  Methods are inherited unless the parameters are the same. -/
def findMembers (t : ClassTable) (c : Class) (kind : HostKind) (name : String) : List HostMember :=
  t.findMembersWithin maxAncestry c kind name

def nameOf (t : ClassTable) (id : ClassId) : String :=
  ((t.get? id).map (·.name)).getD "Object"

def initial : ClassTable :=
  ClassId.builtins.foldl (fun t (id, name, supers) =>
    t.insert ⟨id, name, supers, Host.membersOf id, none⟩) ⟨#[], []⟩

end ClassTable

end LispMachine

import LispMachine.Code.Unit
/-!
# What the methods of a unit share

Constants, call sites and nested units, in the order in which the code first needs them.  Equal
constants of one type have one entry.
-/
namespace LispMachine

namespace Constant

/-- Whether two constants may share an entry. -/
def same : Constant → Constant → Bool
  | .form a, .form b => a.typeName == b.typeName && a == b
  | .var a, .var b => a == b
  | .type a, .type b => a == b
  | .host a, .host b => a == b
  | _, _ => false

end Constant

structure Pool where
  constants : Array Constant := #[]
  keywordSites : Array Keyword := #[]
  protocolSites : Array Symbol := #[]
  /-- The nested units, the latest first. -/
  children : List CompiledUnit := []

namespace Pool

def constant (p : Pool) (c : Constant) : Nat × Pool :=
  match p.constants.findIdx? (Constant.same · c) with
  | some i => (i, p)
  | none => (p.constants.size, { p with constants := p.constants.push c })

/-- Metadata on the outermost form is dropped. -/
def form (p : Pool) (f : Form) : Nat × Pool := p.constant (.form (f.withInfo none))

def keywordSite (p : Pool) (k : Keyword) : Nat × Pool :=
  match p.keywordSites.findIdx? (· == k) with
  | some i => (i, p)
  | none => (p.keywordSites.size, { p with keywordSites := p.keywordSites.push k })

def protocolSite (p : Pool) (method : Symbol) : Nat × Pool :=
  match p.protocolSites.findIdx? (· == method) with
  | some i => (i, p)
  | none => (p.protocolSites.size, { p with protocolSites := p.protocolSites.push method })

def child (p : Pool) (u : CompiledUnit) : Nat × Pool :=
  (p.children.length, { p with children := u :: p.children })

end Pool

end LispMachine

import LispMachine.Compile.Context
import LispMachine.Expr.Basic
/-!
# Locals

A local gets the next free slot of the method that is being analyzed and is visible by name from then
on.  A use of a local from inside another function makes every function in between carry it as a
field.

A use may empty the slot if no later use can follow it.  So each use takes the flag away from the
earlier uses on the same path of control and gets it itself, provided that it stands under the same
clear root as the binding: a use inside a loop does not see the end of a local from outside.
-/
namespace LispMachine

namespace Context

def allocSlot (c : Context) : Nat × Context :=
  let slot := c.scope.nextSlot
  let methods := match c.scope.method with
    | some m => c.methods.modify m fun f => { f with maxSlot := max f.maxSlot slot }
    | none => c.methods
  (slot, { c with methods, scope := { c.scope with nextSlot := slot + 1 } })

def addBinding (c : Context) (b : Binding) : Nat × Context :=
  let id := c.bindings.size
  (id, { c with
    bindings := c.bindings.push b
    scope := { c.scope with env := (b.name, id) :: c.scope.env } })

def registerLocal (c : Context) (name : Symbol) (tag : Option String) (prim : Option Prim)
    (isArg : Bool) : Nat × Context :=
  let (slot, c) := c.allocSlot
  c.addBinding { name, slot, tag, prim, isArg, method := c.scope.method, clearRoot := c.scope.clearRoot }

/-- A name for the method's own object, which is in slot zero. -/
def registerThis (c : Context) (name : Symbol) (tag : Option String) : Nat × Context :=
  c.addBinding { name, slot := 0, tag, prim := none, isArg := false, method := c.scope.method,
                 clearRoot := c.scope.clearRoot, canBeCleared := false }

/-- The innermost visible local of a name; a qualified symbol names none. -/
def lookupLocal? (c : Context) (s : Symbol) : Option Nat :=
  if s.isQualified then none
  else (c.scope.env.find? fun e => e.1.name == s.name).map (·.2)

/-- Carries a binding as one more field, unless it is carried already. -/
def capture (c : Context) (obj binding : Nat) : Context :=
  { c with objects := c.objects.modify obj fun o =>
      if o.closes.contains binding then o else { o with closes := o.closes ++ [binding] } }

/-- Walks from a method outward to the owner of a binding; every function on the way carries it.  A
method is younger than the one around it, so its number bounds the way. -/
def captureFrom (binding : Nat) : Nat → Nat → Context → Context
  | 0, _, c => c
  | fuel + 1, m, c =>
    if (c.binding binding).method == some m then
      if c.scope.inHandler then c.modifyBinding binding fun b => { b with usedInHandler := true } else c
    else
      let frame := c.method m
      let c := c.capture frame.obj binding
      match frame.parent with
      | some p => captureFrom binding fuel p c
      | none => c

def closeOver (c : Context) (binding : Nat) : Context :=
  match c.scope.method with
  | some m => captureFrom binding (m + 1) m c
  | none => c

/-- Takes the clear flag from the uses of a binding in a method that lie on one path with `here`. -/
def keepEarlier (t : PathTree) (uses : Array UseSite) (binding method here : Nat) : Array UseSite :=
  uses.map fun u =>
    if u.shouldClear && u.binding == binding && u.method == some method &&
        u.path.any (t.onSamePath here) then
      { u with shouldClear := false }
    else u

def referenceLocal (c : Context) (binding : Nat) (tag : Option String) : LocalRef × Context :=
  let c := c.closeOver binding
  let b := c.binding binding
  let site := c.uses.size
  let ref : LocalRef := { binding, site, prim := b.prim, tag := tag.or b.tag }
  let use : UseSite := { binding, method := c.scope.method, path := c.scope.clearPath, shouldClear := false }
  match c.scope.method, c.scope.clearPath with
  | some m, some here =>
    if b.slot == 0 then (ref, { c with uses := c.uses.push use })
    else
      let earlier := keepEarlier c.paths c.uses binding m here
      let last := { use with shouldClear := c.scope.clearRoot == b.clearRoot }
      (ref, { c with uses := earlier.push last })
  | _, _ => (ref, { c with uses := c.uses.push use })

def addPath (c : Context) (kind : PathKind) (parent : Option Nat) : Nat × Context :=
  let (id, paths) := c.paths.add kind parent
  (id, { c with paths })

def addObject (c : Context) (name : String) (kind : ObjectKind) (once : Bool) : Nat × Context :=
  (c.objects.size, { c with objects := c.objects.push { name, kind, once } })

def addMethod (c : Context) (obj : Nat) (parent : Option Nat) : Nat × Context :=
  (c.methods.size, { c with methods := c.methods.push { obj, parent } })

end Context

namespace Analysis

def registerLocal (name : Symbol) (tag : Option String) (prim : Option Prim) (isArg : Bool) :
    Analysis Nat := change (·.registerLocal name tag prim isArg)

def lookupLocal? (s : Symbol) : Analysis (Option Nat) := read (·.lookupLocal? s)

def referenceLocal (binding : Nat) (tag : Option String) : Analysis LocalRef :=
  change (·.referenceLocal binding tag)

def addPath (kind : PathKind) (parent : Option Nat) : Analysis Nat := change (·.addPath kind parent)

def arm {α : Type} (branch : Nat) (x : Analysis α) : Analysis α := nested do
  let path ← addPath .path (some branch)
  modifyScope fun s => { s with clearPath := some path }
  x

/-- Reports a member that has to be found at run time. -/
def reflects (what : String) : Analysis PUnit := do
  let c ← read id
  if c.options.strict then fail (.unresolvedInStrictMode what)
  else if c.options.warnOnReflection || dynamicFlag c.world then
    warn .reflection ("Reflection warning, " ++ c.options.fileName ++ ":" ++ toString c.scope.line ++
      ":" ++ toString c.scope.column ++ " - " ++ what ++ ".")
  else return ⟨⟩
where
  /-- The var that turns reflection warnings on. -/
  dynamicFlag (w : World) : Bool :=
    match w.resolve? (Symbol.qualified coreNs World.warnOnReflectionName) with
    | some v => (match w.varGet v with
      | .ok v => v.isTruthy
      | .error _ => false)
    | none => false

end Analysis

end LispMachine

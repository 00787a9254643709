import LispMachine.Expr.Basic
/-!
# Static types of expressions

What is known while compiling about the value of an expression, and whether the compiled code can
produce it unboxed.  A `recur` produces no value, so in a choice it adopts the type of the other arm.
-/
namespace LispMachine

inductive StaticType where
  | prim (p : Prim)
  | named (className : String)
  /-- The type of a `recur`. -/
  | recur
  deriving DecidableEq, Repr

namespace StaticType

def ofHost : HostType → Option StaticType
  | .prim p => some (.prim p)
  | .named name => some (.named name)
  | .object | .void => none

/-- The class whose members a receiver of this type has. -/
def className? : StaticType → Option String
  | .prim p => some p.boxedClass
  | .named name => some name
  | .recur => none

def unify : Option StaticType → Option StaticType → Option StaticType
  | some .recur, b => b
  | a, some .recur => a
  | some a, some b => if a == b then some a else none
  | _, _ => none

end StaticType

namespace Expr

def constantType : Form → Option StaticType
  | .str _ => some (.named "String")
  | .keyword _ => some (.named "Keyword")
  | .symbol .. => some (.named "Symbol")
  | .char _ => some (.named "Character")
  | .long _ => some (.named "Long")
  | .double _ => some (.named "Double")
  | _ => none

mutual

def staticType : Expr → Option StaticType
  | .long _ => some (.prim .long)
  | .double _ => some (.prim .double)
  | .bool _ => some (.named "Boolean")
  | .const f => constantType f
  | .local r =>
    match r.prim with
    | some p => some (.prim p)
    | none => r.tag.map .named
  | .var v => v.tag.map .named
  | .theVar _ | .define .. => some (.named "Var")
  | .cond _ yes no _ => StaticType.unify (staticType yes) (staticType no)
  | .seq body => lastType body
  | .bind _ _ body | .bindFns _ body => staticType body
  | .recur .. => some .recur
  | .staticCall _ _ member _ _ => member.bind fun m => StaticType.ofHost m.ret
  | .methodCall _ _ member _ _ => member.bind fun m => StaticType.ofHost m.ret
  | .staticField _ member => StaticType.ofHost member.ret
  | .fieldGet _ _ field _ => field.bind fun f => f.prim.map .prim
  | .construct className _ _ _ _ => some (.named className)
  | .instanceOf .. => some (.prim .bool)
  | _ => none

def lastType : List Expr → Option StaticType
  | [] => none
  | [e] => staticType e
  | _ :: es => lastType es

end

def isPrimType : Option StaticType → Bool
  | some (.prim _) => true
  | _ => false

mutual

/-- Whether compiled code can leave the value unboxed. -/
def canBeUnboxed : Expr → Bool
  | .long _ | .double _ | .instanceOf .. | .recur .. => true
  | .local r => r.prim.isSome
  | .staticCall _ _ member _ _ => isPrimType (member.bind fun m => StaticType.ofHost m.ret)
  | .methodCall _ _ member _ _ => isPrimType (member.bind fun m => StaticType.ofHost m.ret)
  | .staticField _ member => isPrimType (StaticType.ofHost member.ret)
  | .fieldGet _ _ field _ => (field.bind (·.prim)).isSome
  | .cond _ yes no _ =>
    canBeUnboxed yes && canBeUnboxed no && isPrimType (StaticType.unify (staticType yes) (staticType no))
  | .seq body => lastCanBeUnboxed body
  | .bind _ _ body | .bindFns _ body => canBeUnboxed body
  | _ => false

def lastCanBeUnboxed : List Expr → Bool
  | [] => false
  | [e] => canBeUnboxed e
  | _ :: es => lastCanBeUnboxed es

end

/-- The primitive kind that compiled code can leave on the stack. -/
def prim? (e : Expr) : Option Prim :=
  if e.canBeUnboxed then
    match e.staticType with
    | some (.prim p) => some p
    | _ => none
  else none

/-- The kind that a local takes from its initial value.  Only long and double locals are held
unboxed: narrower kinds widen, and booleans stay boxed. -/
def localPrim? (e : Expr) : Option Prim :=
  match e.prim? with
  | some .long | some .int => some .long
  | some .double | some .float => some .double
  | _ => none

end Expr

end LispMachine

import LispMachine.Value.Collection
/-!
# Vars and namespaces

A var is a named cell: it has a root value, metadata, and flags.  A namespace maps names to vars in
the order in which they were first mentioned.
-/
namespace LispMachine

structure Var where
  name : Symbol
  root : Option Value := none
  /-- Metadata under unqualified keywords, in order. -/
  info : List (String × Value) := []
  dynamic : Bool := false
  isMacro : Bool := false
  inline : Option CoreFn.Inline := none
  deriving Inhabited

namespace Var

def infoFlag (v : Var) (key : String) : Bool := ((v.info.lookup key).map Value.isTruthy).getD false

/-- Replaces the value under a name or appends a new entry. -/
def insertInfo (key : String) (value : Value) : List (String × Value) → List (String × Value)
  | [] => [(key, value)]
  | (k, v) :: rest => if k == key then (k, value) :: rest else (k, v) :: insertInfo key value rest

/-- The entries of a map that stand under unqualified keywords. -/
def infoOf : Value → List (String × Value)
  | .map _ pairs =>
    pairs.foldl (fun info (k, v) =>
      match k with
      | .keyword kw => if kw.ns.isNone then insertInfo kw.name v info else info
      | _ => info) []
  | _ => []

/-- Replaces the metadata.  The dynamic flag follows it; the flag of an expander is only ever set. -/
def setInfo (v : Var) (m : Value) : Var :=
  let v := { v with info := infoOf m }
  { v with dynamic := v.infoFlag "dynamic", isMacro := v.isMacro || v.infoFlag "macro" }

def infoEntries (v : Var) : Value.Entries :=
  Value.Entries.ofList (v.info.map fun (k, x) => (Value.kw k, x))

end Var

structure Namespace where
  name : String
  /-- Names and the numbers of their vars. -/
  vars : List (String × Nat) := []

end LispMachine

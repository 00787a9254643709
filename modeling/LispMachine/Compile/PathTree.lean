/-!
# Paths of control

Whether two places of a method can both be reached in one run is read off a tree.  A `path` node
stands for code that runs in sequence, a `branch` node for a choice: of its children only one is
taken.  Two places lie on one path if their nearest common ancestor is a path node.

Nodes are numbered in the order in which they are made, so a parent always has a smaller number than
its children.  Numbers and depths are kept without the bound that 32 bits would set.
-/
namespace LispMachine

inductive PathKind where
  | path
  | branch
  deriving DecidableEq, Repr

structure PathNode where
  kind : PathKind
  parent : Option Nat
  depth : Nat
  deriving DecidableEq, Repr

structure PathTree where
  nodes : Array PathNode := #[]

namespace PathTree

def get? (t : PathTree) (id : Nat) : Option PathNode := t.nodes[id]?

def parent? (t : PathTree) (id : Nat) : Option Nat := (t.get? id).bind (·.parent)

def depth (t : PathTree) (id : Nat) : Nat := ((t.get? id).map (·.depth)).getD 0

/-- Adds a node; without a parent it is the root of a tree of its own. -/
def add (t : PathTree) (kind : PathKind) (parent : Option Nat) : Nat × PathTree :=
  let depth := match parent with
    | some p => t.depth p + 1
    | none => 0
  (t.nodes.size, ⟨t.nodes.push ⟨kind, parent, depth⟩⟩)

/-- Up from the second node as long as it is deeper than the first.  The number bounds the steps. -/
def rise (t : PathTree) (b : Nat) : Nat → Nat → Option Nat
  | 0, a => if t.depth b < t.depth a then none else some a
  | n + 1, a => if t.depth b < t.depth a then (t.parent? a).bind (rise t b n) else some a

/-- Up from both nodes until they meet.  The number bounds the steps. -/
def meet (t : PathTree) : Nat → Nat → Nat → Option Nat
  | 0, a, b => if a == b then some a else none
  | n + 1, a, b =>
    if a == b then some a
    else
      match t.parent? a, t.parent? b with
      | some a, some b => meet t n a b
      | _, _ => none

/-- The nearest common ancestor; none if the nodes are in different trees.  A way up has no more steps than
there are nodes. -/
def commonAncestor? (t : PathTree) (a b : Nat) : Option Nat := do
  let a ← t.rise b t.nodes.size a
  let b ← t.rise a t.nodes.size b
  t.meet t.nodes.size a b

/-- Whether code at both places may run. -/
def onSamePath (t : PathTree) (a b : Nat) : Bool :=
  match (t.commonAncestor? a b).bind t.get? with
  | some node => node.kind == .path
  | none => false

end PathTree

end LispMachine

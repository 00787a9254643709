import LispMachine.Emit.Unit
/-!
# Where a `recur` may stand

The parts of an expression are listed in the order in which their code runs, each with its station: what is left to
do after it (`Expr.parts`).  An expression is in place if every `recur` in it ends the loop whose locals it rebinds
(`Expr.InPlace`); a handler or a cleanup, or anything else that is still to be done, keeps a `recur` out.

The bodies of functions and types are not parts: they are compiled as soon as they are analyzed.  A unit is in place if
it was compiled from bodies that are.
-/
namespace LispMachine

/-- How a part stands in an expression. -/
inductive Station where
  /-- Its value is the value of the whole. -/
  | last
  /-- Something is done with its value or after it, or a handler is around it. -/
  | inner
  /-- It is the body of a loop over these locals. -/
  | loop (locals : List Nat)

/-- What a `recur` at the end of the part rebinds, given what one at the end of the whole would rebind. -/
def Station.rebinds (loop : Option (List Nat)) : Station → Option (List Nat)
  | .last => loop
  | .inner => none
  | .loop locals => some locals

/-- The locals that a `recur` at the end of the body rebinds. -/
def FnMethod.locals (m : FnMethod) : List Nat := m.params ++ m.rest.toList

namespace Expr

/-- Expressions whose values are consumed. -/
def innerParts (es : List Expr) : List (Station × Expr) := es.map fun e => (.inner, e)

/-- The value of a sequence is that of its last expression. -/
def seqParts : List Expr → List (Station × Expr)
  | [] => []
  | [e] => [(.last, e)]
  | e :: es => (.inner, e) :: seqParts es

/-- A `try` and each of its handlers are followed by the cleanup, which is also what runs before an exception leaves. -/
def attemptParts (body : Expr) (handlers : List (String × Nat × Expr)) (cleanup : Option Expr) : List (Station × Expr) :=
  let finish := innerParts cleanup.toList
  (.inner, body) :: (finish ++ (handlers.flatMap (fun h => (.inner, h.2.2) :: finish) ++ finish))

/-- The parts of an expression, in the order of their code. -/
def parts : Expr → List (Station × Expr)
  | .nil | .bool _ | .long _ | .double _ | .const _ | .type _ | .local _ | .var _ | .theVar _ | .staticField _ _ => []
  | .fn _ _ _ | .deftype _ _ | .reify _ _ _ _ => []
  | .vector items | .set items => innerParts items
  | .map pairs => innerParts (pairs.flatMap fun p => [p.1, p.2])
  | .define _ init _ => innerParts init.toList
  | .assign _ value | .throw value | .instanceOf _ value | .keywordInvoke _ value _ | .fieldGet value _ _ _ => innerParts [value]
  | .cond test yes no _ => [(.inner, test), (.last, yes), (.last, no)]
  | .seq body => seqParts body
  | .bind isLoop bindings body =>
    innerParts (bindings.map (·.2)) ++ [(if isLoop then .loop (bindings.map (·.1)) else .last, body)]
  | .bindFns bindings body => innerParts (bindings.map (·.2)) ++ [(.last, body)]
  | .recur _ args _ => innerParts args
  | .invoke f args _ _ | .methodCall f _ _ args _ => innerParts (f :: args)
  | .protocolInvoke _ args _ | .staticCall _ _ _ args _ | .construct _ _ _ args _ => innerParts args
  | .attempt body handlers cleanup _ _ => attemptParts body handlers cleanup
  | .case value _ _ buckets otherwise _ =>
    (.inner, value) :: (buckets.flatMap (fun b => b.2.map fun e => (.last, e.2)) ++ [(.last, otherwise)])

/-- The units that an expression makes instances of. -/
def units : Expr → List CompiledUnit
  | .fn unit _ _ | .deftype _ unit | .reify _ unit _ _ => [unit]
  | _ => []

def isRecur : Expr → Bool
  | .recur .. => true
  | _ => false

end Expr

mutual

/-- Every `recur` in the expression stands at the end of the loop whose locals it rebinds and has a value for each of them.
`loop` gives the locals of the loop that the expression itself ends, if it ends one. -/
inductive Expr.InPlace : Option (List Nat) → Expr → Prop
  | recur {targets : List Nat} {args : List Expr} {line : Nat} : args.length = targets.length →
      (∀ e ∈ args, Expr.InPlace none e) → Expr.InPlace (some targets) (.recur targets args line)
  | node {loop : Option (List Nat)} {e : Expr} : e.isRecur = false → (∀ p ∈ e.parts, Expr.InPlace (p.1.rebinds loop) p.2) →
      (∀ u ∈ e.units, CompiledUnit.InPlace u) → Expr.InPlace loop e

/-- The unit is made of methods whose bodies are in place. -/
inductive CompiledUnit.InPlace : CompiledUnit → Prop
  | compiled {c : Context} {obj : Nat} {kind : UnitKind} {ms : List FnMethod} {u : CompiledUnit} :
      Emit.unit c obj kind ms = .ok u → (∀ m ∈ ms, Expr.InPlace (some m.locals) m.body) → CompiledUnit.InPlace u

end

namespace Expr

theorem forall_innerParts {P : Station × Expr → Prop} (es : List Expr) : (∀ p ∈ innerParts es, P p) ↔ ∀ e ∈ es, P (.inner, e) :=
  List.forall_mem_map

/-- All but the last of a sequence are for their effect. -/
theorem seqParts_append (es : List Expr) (e : Expr) : seqParts (es ++ [e]) = innerParts es ++ [(.last, e)] := by
  induction es with
  | nil => rfl
  | cons e' es ih =>
    cases es with
    | nil => rfl
    | cons e'' es => exact congrArg ((.inner, e') :: ·) ih

/-- What ends no loop may stand at the end of any. -/
theorem InPlace.anywhere {loop loop' : Option (List Nat)} {e : Expr} : InPlace loop e → loop = none → InPlace loop' e
  | .recur _ _, h => by cases h
  | .node hr hp hu, h => by
    refine .node hr (fun p hm => ?_) hu
    cases hs : p.1 with
    | last => exact (hp p hm).anywhere (by rw [hs]; exact h)
    | inner | loop =>
      have hpart := hp p hm
      rw [hs] at hpart
      exact hpart

variable {loop : Option (List Nat)} {e : Expr} {es : List Expr}

/-- An expression that makes no instances. -/
theorem inPlace_parts (hr : e.isRecur = false) (hu : e.units = []) (h : ∀ p ∈ e.parts, p.2.InPlace (p.1.rebinds loop)) : e.InPlace loop := by
  refine .node hr h fun u hm => ?_
  rw [hu] at hm
  cases hm

/-- An expression without parts. -/
theorem inPlace_leaf (hr : e.isRecur = false) (hp : e.parts = []) (hu : e.units = []) : e.InPlace loop := by
  refine inPlace_parts hr hu fun p hm => ?_
  rw [hp] at hm
  cases hm

theorem forall_inner (h : ∀ e ∈ es, e.InPlace none) : ∀ p ∈ innerParts es, p.2.InPlace (p.1.rebinds loop) := (forall_innerParts es).2 h

/-- An expression that consumes the values of its parts. -/
theorem inPlace_inner (hr : e.isRecur = false) (hp : e.parts = innerParts es) (hu : e.units = [])
    (h : ∀ e' ∈ es, e'.InPlace none) : e.InPlace loop := by
  refine inPlace_parts hr hu ?_
  rw [hp]
  exact forall_inner h

theorem inPlace_one {e' : Expr} (hr : e.isRecur = false) (hp : e.parts = innerParts [e']) (hu : e.units = [])
    (h : e'.InPlace none) : e.InPlace loop := inPlace_inner hr hp hu (List.forall_mem_singleton.2 h)

theorem inPlace_unit {u : CompiledUnit} (hr : e.isRecur = false) (hp : e.parts = []) (hu : e.units = [u]) (h : u.InPlace) :
    e.InPlace loop := by
  refine .node hr (fun p hm => ?_) fun v hm => ?_
  · rw [hp] at hm
    cases hm
  · rw [hu] at hm
    rw [List.mem_singleton.1 hm]
    exact h

theorem inPlace_attempt {main : Expr} {handlers : List (String × Nat × Expr)} {cleanup : Option Expr}
    {resultSlot thrownSlot : Nat} (hmain : main.InPlace none) (hhandlers : ∀ h ∈ handlers, h.2.2.InPlace none)
    (hcleanup : ∀ e ∈ cleanup.toList, e.InPlace none) : InPlace loop (.attempt main handlers cleanup resultSlot thrownSlot) := by
  have hfinish : ∀ p ∈ innerParts cleanup.toList, p.2.InPlace (p.1.rebinds loop) := forall_inner hcleanup
  refine inPlace_parts rfl rfl (List.forall_mem_cons.2 ⟨hmain, List.forall_mem_append.2 ⟨hfinish, ?_⟩⟩)
  refine List.forall_mem_append.2 ⟨fun p hp => ?_, hfinish⟩
  obtain ⟨h, hh, hp⟩ := List.mem_flatMap.1 hp
  rcases List.mem_cons.1 hp with rfl | hp
  · exact hhandlers h hh
  · exact hfinish p hp

end Expr

end LispMachine

import LispMachine.Compile.Context
import LispMachine.Code.Verify
import LispMachine.Expr.Basic
/-!
# Expressions whose code the checker accepts

`Fitted` says of an expression what the checker will want to know of its code: the locals that it
introduces belong to the method, so that their slots exist; a `recur` stands at the end of its loop and
rebinds as many locals as the loop has; a `try` stands where the stack is empty; the units in it get as many
values as they close over.  What else the units must be is left open, by a parameter.

It also says what a `try` needs to keep its result and the exception in slots while its cleanup runs: the
parts of a `try` introduce locals in higher slots only, and the locals that are used in a handler keep their
values.

The method is not known where a form is not compiled: nothing is then asked of its slots.
-/
namespace LispMachine

/-- Where an expression may keep its locals: the method, and the first slot that is free.  It may be part
of a handler. -/
structure Room where
  method : Option Nat
  floor : Nat
  inHandler : Bool

/-- The slots from here on. -/
def Room.above (r : Room) (floor : Nat) : Room := { r with floor }

def Room.handling (r : Room) : Room := { r with inHandler := true }

namespace Context

/-- The slot of every local is among those of its method. -/
def Roomy (c : Context) : Prop := ∀ x m, (c.binding x).method = some m → (c.binding x).slot ≤ (c.method m).maxSlot

/-- The local belongs to the method, and its slot is free. -/
structure Owns (c : Context) (r : Room) (b : Nat) : Prop where
  free : r.floor ≤ (c.binding b).slot
  method : ∀ m, r.method = some m → (c.binding b).method = some m

/-- The method has the slot, and it is free. -/
structure Holds (c : Context) (r : Room) (slot : Nat) : Prop where
  free : r.floor ≤ slot
  method : ∀ m, r.method = some m → slot ≤ (c.method m).maxSlot

/-- The local exists, and if it belongs to the method of a handler then its uses do not empty its slot. -/
structure Lasts (c : Context) (r : Room) (b : Nat) : Prop where
  known : b < c.bindings.size
  used : r.inHandler = true → ∀ m, r.method = some m → (c.binding b).method = some m → (c.binding b).usedInHandler = true

end Context

namespace Expr

mutual

/-- `loop` gives the locals that a `recur` at the end of the expression rebinds, if there may be one; `top`
says that a `try` may stand there. -/
def Fitted (good : CompiledUnit → Prop) (c : Context) (room : Room) (loop : Option (List Nat)) (top : Bool) : Expr → Prop
  | .nil | .bool _ | .long _ | .double _ | .const _ | .type _ | .var _ | .theVar _ | .staticField _ _ => True
  | .local r => c.Lasts room r.binding
  | .vector items | .set items => FittedAll good c room items
  | .map pairs => FittedPairs good c room pairs
  | .define _ init _ => FittedOption good c room init
  | .assign _ value | .throw value | .instanceOf _ value | .keywordInvoke _ value _ | .fieldGet value _ _ _ =>
    Fitted good c room none false value
  | .cond test yes no _ => Fitted good c room none false test ∧ Fitted good c room loop top yes ∧ Fitted good c room loop top no
  | .seq body => FittedSeq good c room loop top body
  | .bind isLoop bindings body => FittedBindings good c room bindings ∧
    Fitted good c room (if isLoop then some (bindings.map (·.1)) else loop) top body
  | .bindFns bindings body => FittedBindings good c room bindings ∧ Fitted good c room loop top body
  | .recur targets args _ => loop = some targets ∧ args.length = targets.length ∧ (∀ t ∈ targets, c.Owns (room.above 0) t) ∧
    FittedAll good c room args
  | .fn unit captures _ => captures.length = unit.closed.length ∧ good unit ∧ ∀ r ∈ captures, c.Lasts room r.binding
  | .deftype _ unit => good unit
  | .reify _ unit captures _ => good unit ∧ ∀ r ∈ captures, c.Lasts room r.binding
  | .invoke f args _ tail => (tail = true → top = true) ∧ Fitted good c room none false f ∧ FittedAll good c room args
  | .methodCall f _ _ args _ => Fitted good c room none false f ∧ FittedAll good c room args
  | .protocolInvoke _ args _ | .staticCall _ _ _ args _ | .construct _ _ _ args _ => FittedAll good c room args
  | .attempt body handlers cleanup resultSlot thrownSlot => top = true ∧ c.Holds room resultSlot ∧
    c.Holds (room.above (resultSlot + 1)) thrownSlot ∧ Fitted good c (room.above (thrownSlot + 1)) none false body ∧
    FittedHandlers good c (room.above (thrownSlot + 1)).handling handlers ∧
    FittedOption good c (room.above (thrownSlot + 1)).handling cleanup
  | .case value temp _ buckets otherwise _ => Fitted good c room none false value ∧ c.Owns room temp ∧
    FittedBuckets good c room loop top buckets ∧ Fitted good c room loop top otherwise

def FittedOption (good : CompiledUnit → Prop) (c : Context) (room : Room) : Option Expr → Prop
  | some e => Fitted good c room none false e
  | none => True

def FittedAll (good : CompiledUnit → Prop) (c : Context) (room : Room) : List Expr → Prop
  | [] => True
  | e :: es => Fitted good c room none false e ∧ FittedAll good c room es

def FittedPairs (good : CompiledUnit → Prop) (c : Context) (room : Room) : List (Expr × Expr) → Prop
  | [] => True
  | (k, v) :: rest => Fitted good c room none false k ∧ Fitted good c room none false v ∧ FittedPairs good c room rest

def FittedSeq (good : CompiledUnit → Prop) (c : Context) (room : Room) (loop : Option (List Nat)) (top : Bool) : List Expr → Prop
  | [] => True
  | [e] => Fitted good c room loop top e
  | e :: es => Fitted good c room none false e ∧ FittedSeq good c room loop top es

def FittedBindings (good : CompiledUnit → Prop) (c : Context) (room : Room) : List (Nat × Expr) → Prop
  | [] => True
  | (b, init) :: rest => c.Owns room b ∧ Fitted good c room none false init ∧ FittedBindings good c room rest

def FittedHandlers (good : CompiledUnit → Prop) (c : Context) (room : Room) : List (String × Nat × Expr) → Prop
  | [] => True
  | (_, b, body) :: rest => c.Owns room b ∧ Fitted good c room none false body ∧ FittedHandlers good c room rest

def FittedBuckets (good : CompiledUnit → Prop) (c : Context) (room : Room) (loop : Option (List Nat)) (top : Bool) :
    List (Int32 × List (Form × Expr)) → Prop
  | [] => True
  | (_, entries) :: rest => FittedEntries good c room loop top entries ∧ FittedBuckets good c room loop top rest

def FittedEntries (good : CompiledUnit → Prop) (c : Context) (room : Room) (loop : Option (List Nat)) (top : Bool) : List (Form × Expr) → Prop
  | [] => True
  | (_, value) :: rest => Fitted good c room loop top value ∧ FittedEntries good c room loop top rest

end

/-! ## Lists of expressions -/

section

variable {good : CompiledUnit → Prop} {c : Context} {room : Room} {loop : Option (List Nat)} {top : Bool}

theorem fittedAll_iff (es : List Expr) : FittedAll good c room es ↔ ∀ e ∈ es, Fitted good c room none false e := by
  induction es with
  | nil => simp [FittedAll]
  | cons e es ih => rw [FittedAll, ih, List.forall_mem_cons]

theorem fittedPairs_iff (ps : List (Expr × Expr)) :
    FittedPairs good c room ps ↔ ∀ p ∈ ps, Fitted good c room none false p.1 ∧ Fitted good c room none false p.2 := by
  induction ps with
  | nil => simp [FittedPairs]
  | cons p ps ih => rw [FittedPairs, ih, List.forall_mem_cons, and_assoc]

theorem fittedBindings_iff (bs : List (Nat × Expr)) :
    FittedBindings good c room bs ↔ ∀ b ∈ bs, c.Owns room b.1 ∧ Fitted good c room none false b.2 := by
  induction bs with
  | nil => simp [FittedBindings]
  | cons b bs ih => rw [FittedBindings, ih, List.forall_mem_cons, and_assoc]

theorem fittedHandlers_iff (hs : List (String × Nat × Expr)) :
    FittedHandlers good c room hs ↔ ∀ h ∈ hs, c.Owns room h.2.1 ∧ Fitted good c room none false h.2.2 := by
  induction hs with
  | nil => simp [FittedHandlers]
  | cons h hs ih => rw [FittedHandlers, ih, List.forall_mem_cons, and_assoc]

theorem fittedEntries_iff (es : List (Form × Expr)) :
    FittedEntries good c room loop top es ↔ ∀ e ∈ es, Fitted good c room loop top e.2 := by
  induction es with
  | nil => simp [FittedEntries]
  | cons e es ih => rw [FittedEntries, ih, List.forall_mem_cons]

theorem fittedBuckets_iff (bs : List (Int32 × List (Form × Expr))) :
    FittedBuckets good c room loop top bs ↔ ∀ b ∈ bs, ∀ e ∈ b.2, Fitted good c room loop top e.2 := by
  induction bs with
  | nil => simp [FittedBuckets]
  | cons b bs ih => rw [FittedBuckets, ih, List.forall_mem_cons, fittedEntries_iff]

/-- All but the last of a sequence are for their effect. -/
theorem fittedSeq_append {es : List Expr} {e : Expr} (hs : ∀ e ∈ es, Fitted good c room none false e)
    (he : Fitted good c room loop top e) : FittedSeq good c room loop top (es ++ [e]) := by
  induction es with
  | nil => exact he
  | cons e' es ih =>
    have hrest := ih fun e he => hs e (List.mem_cons_of_mem _ he)
    cases es with
    | nil => exact ⟨hs e' List.mem_cons_self, hrest⟩
    | cons e'' es => exact ⟨hs e' List.mem_cons_self, hrest⟩

end

end Expr

/-- The body of the method is fitted for its frame. -/
def FnMethod.Fitted (good : CompiledUnit → Prop) (c : Context) (m : FnMethod) : Prop :=
  ∃ loop, Expr.Fitted good c ⟨some m.frame, 0, false⟩ loop true m.body

end LispMachine

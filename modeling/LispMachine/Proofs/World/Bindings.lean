import LispMachine.Core.Library
import LispMachine.Machine.Step
import LispMachine.Proofs.Run.Returns
import LispMachine.Proofs.World.Vars
import Mathlib.Data.List.Induction
/-!
# Thread bindings

The bindings of the thread over the roots of the vars are a stack of maps over a map.  Pushing and popping a frame, setting a
var, giving it a root and giving it metadata each do to the world what `BindingStack.step` does to the stack, and where the
stack refuses, the world throws and stays as it is (`VarEvent.run_eq`); so a sequence of them does what it does to the stack
(`stack_runAll`).

A read asks for the dynamic flag before it looks at the frames, but a write does not.  As long as every var that a frame binds
is dynamic (`Steady`) the difference is not seen: a read gives the innermost binding, or else the root, and what was set is read
back.  Only new metadata without the flag, for a var that a frame binds, ends this (`Steady.step`): from then on the bindings
of the var are hidden, not gone, and what is set cannot be read (`get?_set`).
-/
namespace LispMachine

/-! ## The stack -/

/-- Frames of bindings, the innermost first, over the roots of the vars. -/
structure BindingStack where
  frames : List (Nat → Option Value)
  root : Nat → Option Value
  dynamic : Nat → Bool

/-- What is done to bindings and vars. -/
inductive VarEvent where
  /-- Pushes a frame, given as a map from vars to values. -/
  | push (bindings : Value)
  | pop
  | set (id : Nat) (value : Value)
  | bindRoot (id : Nat) (value : Value)
  | setInfo (id : Nat) (info : Value)

namespace BindingStack

/-- The value in the innermost frame that binds the var. -/
def bound? (s : BindingStack) (id : Nat) : Option Value := s.frames.findSome? (· id)

/-- The value that is read. -/
def get? (s : BindingStack) (id : Nat) : Option Value := if s.dynamic id then (s.bound? id).or (s.root id) else s.root id

/-- Replaces the value in the innermost frame that binds the var. -/
def rebind (id : Nat) (value : Value) : List (Nat → Option Value) → Option (List (Nat → Option Value))
  | [] => none
  | frame :: rest =>
    if (frame id).isSome then some (Function.update frame id (some value) :: rest) else (rebind id value rest).map (frame :: ·)

/-- Bindings as a map; the last one for a var counts. -/
def frameOf (bindings : List (Nat × Value)) : Nat → Option Value :=
  bindings.foldl (fun frame e => Function.update frame e.1 (some e.2)) fun _ => none

/-- What an event does to the stack; none if it is refused. -/
def step (s : BindingStack) : VarEvent → Option BindingStack
  | .push m =>
    match Core.bindingsOf m with
    | .ok bindings => if bindings.all fun e => s.dynamic e.1 then some { s with frames := frameOf bindings :: s.frames } else none
    | .error _ => none
  | .pop =>
    match s.frames with
    | [] => none
    | _ :: rest => some { s with frames := rest }
  | .set id value => (rebind id value s.frames).map fun frames => { s with frames }
  | .bindRoot id value => some { s with root := Function.update s.root id (some value) }
  | .setInfo id info => some { s with dynamic := Function.update s.dynamic id (Var.marked "dynamic" info) }

variable {s t : BindingStack} {id : Nat} {value : Value} {frames frames' : List (Nat → Option Value)}

/-! ## Pushing and popping -/

/-- A frame is pushed if and only if every var that it binds is dynamic. -/
theorem step_push_eq_some_iff {m : Value} : s.step (.push m) = some t ↔
    ∃ bindings, Core.bindingsOf m = .ok bindings ∧ (∀ e ∈ bindings, s.dynamic e.1) ∧
      t = { s with frames := frameOf bindings :: s.frames } := by
  rw [step]
  cases Core.bindingsOf m with
  | error _ => exact ⟨nofun, fun ⟨_, h, _⟩ => nomatch h⟩
  | ok bindings =>
    dsimp only
    split
    · rename_i hall
      exact ⟨fun h => ⟨bindings, rfl, List.all_eq_true.1 hall, (Option.some.inj h).symm⟩, fun ⟨_, h, _, ht⟩ => by cases h; rw [ht]⟩
    · rename_i hall
      exact ⟨nofun, fun ⟨_, h, hdynamic, _⟩ => by cases h; exact absurd (List.all_eq_true.2 hdynamic) hall⟩

/-- Popping takes away the frame that was pushed last. -/
theorem step_pop_push {m : Value} (h : s.step (.push m) = some t) : t.step .pop = some s := by
  obtain ⟨bindings, -, -, rfl⟩ := step_push_eq_some_iff.1 h
  rfl

/-- The last binding for a var in a new frame hides those around it. -/
theorem frameOf_concat (bindings : List (Nat × Value)) (e : Nat × Value) :
    frameOf (bindings ++ [e]) = Function.update (frameOf bindings) e.1 (some e.2) := List.foldl_append

theorem isSome_frameOf {bindings : List (Nat × Value)} : (frameOf bindings id).isSome ↔ ∃ e ∈ bindings, e.1 = id := by
  induction bindings using List.reverseRecOn with
  | nil => exact ⟨nofun, fun ⟨_, h, _⟩ => nomatch h⟩
  | append_singleton es e ih =>
    rw [frameOf_concat]
    by_cases he : e.1 = id
    · subst he
      rw [Function.update_self]
      exact ⟨fun _ => ⟨e, List.mem_append_right _ (List.mem_singleton_self e), rfl⟩, fun _ => rfl⟩
    · rw [Function.update_of_ne (Ne.symm he), ih]
      constructor
      · exact fun ⟨e', hmem, heq⟩ => ⟨e', List.mem_append_left _ hmem, heq⟩
      · rintro ⟨e', hmem, heq⟩
        rcases List.mem_append.1 hmem with hmem | hmem
        · exact ⟨e', hmem, heq⟩
        · rw [List.mem_singleton] at hmem
          subst hmem
          exact absurd heq he

/-! ## Setting a var -/

/-- Only the innermost frame that binds the var is changed, and only at this var. -/
theorem rebind_eq_some_iff : rebind id value frames = some frames' ↔
    ∃ (inner : List (Nat → Option Value)) (frame : Nat → Option Value) (outer : List (Nat → Option Value)),
      frames = inner ++ frame :: outer ∧ (∀ f ∈ inner, f id = none) ∧ (frame id).isSome ∧
      frames' = inner ++ Function.update frame id (some value) :: outer := by
  induction frames generalizing frames' with
  | nil =>
    refine ⟨nofun, fun ⟨inner, frame, outer, h, _⟩ => ?_⟩
    cases inner <;> cases h
  | cons f fs ih =>
    rw [rebind]
    split
    · rename_i hf
      refine ⟨fun h => ⟨[], f, fs, rfl, nofun, hf, (Option.some.inj h).symm⟩, ?_⟩
      rintro ⟨inner, frame, outer, h, hinner, hframe, rfl⟩
      cases inner with
      | nil =>
        cases h
        rfl
      | cons g inner =>
        cases h
        rw [hinner f List.mem_cons_self] at hf
        cases hf
    · rename_i hf
      rw [Option.not_isSome_iff_eq_none] at hf
      rw [Option.map_eq_some_iff]
      constructor
      · rintro ⟨rest, hrest, rfl⟩
        obtain ⟨inner, frame, outer, rfl, hinner, hframe, rfl⟩ := ih.1 hrest
        exact ⟨f :: inner, frame, outer, rfl, List.forall_mem_cons.2 ⟨hf, hinner⟩, hframe, rfl⟩
      · rintro ⟨inner, frame, outer, h, hinner, hframe, rfl⟩
        cases inner with
        | nil =>
          cases h
          rw [hf] at hframe
          cases hframe
        | cons g inner =>
          cases h
          exact ⟨_, ih.2 ⟨inner, frame, outer, rfl, (List.forall_mem_cons.1 hinner).2, hframe, rfl⟩, rfl⟩

theorem isSome_rebind (id : Nat) (value : Value) (frames : List (Nat → Option Value)) :
    (rebind id value frames).isSome = (frames.findSome? (· id)).isSome := by
  induction frames with
  | nil => rfl
  | cons f fs ih =>
    rw [rebind, List.findSome?_cons]
    cases hf : f id with
    | none => simpa [hf] using ih
    | some v => rfl

/-- A var can be set if and only if a frame binds it. -/
theorem isSome_step_set (s : BindingStack) (id : Nat) (value : Value) : (s.step (.set id value)).isSome = (s.bound? id).isSome :=
  (Option.isSome_map ..).trans (isSome_rebind id value s.frames)

theorem bound?_set (h : s.step (.set id value) = some t) (other : Nat) :
    t.bound? other = if other = id then some value else s.bound? other := by
  obtain ⟨frames', hframes, rfl⟩ := Option.map_eq_some_iff.1 h
  obtain ⟨inner, frame, outer, hs, hinner, hframe, rfl⟩ := rebind_eq_some_iff.1 hframes
  simp only [bound?, hs, List.findSome?_append, List.findSome?_cons]
  by_cases heq : other = id
  · subst heq
    rw [if_pos rfl, List.findSome?_eq_none_iff.2 hinner, Function.update_self]
    rfl
  · rw [if_neg heq, Function.update_of_ne heq]

/-- **What was set is read back if the var is dynamic, and only the root is read if it is not.** -/
theorem get?_set (h : s.step (.set id value) = some t) : t.get? id = if s.dynamic id then some value else s.root id := by
  have hbound := bound?_set h id
  obtain ⟨frames', -, rfl⟩ := Option.map_eq_some_iff.1 h
  rw [get?, hbound, if_pos rfl, Option.some_or]

/-! ## Vars that lose their flag -/

/-- Every var that a frame binds is dynamic. -/
def Steady (s : BindingStack) : Prop := ∀ id, (s.bound? id).isSome → s.dynamic id

/-- A read gives the innermost binding, or else the root. -/
theorem Steady.get?_eq (h : s.Steady) (id : Nat) : s.get? id = (s.bound? id).or (s.root id) := by
  rw [get?]
  split
  · rfl
  · rename_i hd
    rw [Option.not_isSome_iff_eq_none.1 fun hb => hd (h id hb), Option.none_or]

/-- What was set is read back. -/
theorem Steady.get?_set (h : s.Steady) (ht : s.step (.set id value) = some t) : t.get? id = some value := by
  have hbound : (s.bound? id).isSome := by
    rw [← isSome_step_set s id value, ht]
    rfl
  rw [BindingStack.get?_set ht, if_pos (h id hbound)]

/-- The event takes the dynamic flag from no var that a frame binds. -/
def Keeps (s : BindingStack) (e : VarEvent) : Prop :=
  ∀ id info, e = .setInfo id info → (s.bound? id).isSome → Var.marked "dynamic" info

/-- **Only a var that loses its flag while a frame binds it makes a difference.** -/
theorem Steady.step {e : VarEvent} (h : s.Steady) (hkeeps : s.Keeps e) (ht : s.step e = some t) : t.Steady := by
  intro id hid
  cases e with
  | push m =>
    obtain ⟨bindings, -, hdynamic, rfl⟩ := step_push_eq_some_iff.1 ht
    rw [bound?, List.findSome?_cons] at hid
    cases hf : frameOf bindings id with
    | none =>
      rw [hf] at hid
      exact h id hid
    | some v =>
      obtain ⟨e, he, rfl⟩ := isSome_frameOf.1 (Option.isSome_of_eq_some hf)
      exact hdynamic e he
  | pop =>
    rw [BindingStack.step] at ht
    split at ht
    · cases ht
    · rename_i frame rest hframes
      cases ht
      refine h id ?_
      rw [bound?, hframes, List.findSome?_cons]
      cases frame id with
      | none => exact hid
      | some v => rfl
  | set other value =>
    have hset := isSome_step_set s other value
    rw [bound?_set ht] at hid
    rw [ht] at hset
    obtain ⟨frames', -, rfl⟩ := Option.map_eq_some_iff.1 ht
    by_cases heq : id = other
    · subst heq
      exact h id hset.symm
    · rw [if_neg heq] at hid
      exact h id hid
  | bindRoot other value =>
    cases ht
    exact h id hid
  | setInfo other info =>
    cases ht
    by_cases heq : id = other
    · subst heq
      exact (Function.update_self id _ s.dynamic).trans (hkeeps id info rfl hid)
    · exact (Function.update_of_ne heq _ s.dynamic).trans (h id hid)

/-! ## One event after the other -/

/-- The stack after events; those that are refused do nothing. -/
def runAll (s : BindingStack) (events : List VarEvent) : BindingStack := events.foldl (fun s e => (s.step e).getD s) s

/-- No event takes the dynamic flag from a var that a frame binds at that time. -/
def KeepsAll (s : BindingStack) : List VarEvent → Prop
  | [] => True
  | e :: events => s.Keeps e ∧ ((s.step e).getD s).KeepsAll events

theorem Steady.runAll {events : List VarEvent} (h : s.Steady) (hkeeps : s.KeepsAll events) : (s.runAll events).Steady := by
  induction events generalizing s with
  | nil => exact h
  | cons e events ih =>
    have hnext : ((s.step e).getD s).Steady := by
      cases ht : s.step e with
      | none => exact h
      | some t => exact h.step hkeeps.1 ht
    exact ih hnext hkeeps.2

/-- A bound var without its flag: 7 is set where 1 was, and 5 is read. -/
example : (BindingStack.runAll ⟨[fun _ => some (.long 1)], fun _ => some (.long 5), fun _ => true⟩
    [.setInfo 0 .nil, .set 0 (.long 7)]).get? 0 = some (.long 5) := rfl

end BindingStack

/-! ## The world -/

open BindingStack

namespace World

variable {w : World} {id : Nat} {frame : List (Nat × Value)}

/-- A frame as a map. -/
def frameMap (frame : List (Nat × Value)) : Nat → Option Value := fun id => frame.lookup id

/-- The bindings of the thread over the roots of the vars. -/
def stack (w : World) : BindingStack where
  frames := w.bindings.map frameMap
  root id := (w.var id).root
  dynamic id := (w.var id).dynamic

/-- A var is read as on the stack. -/
theorem varGet_eq (w : World) (id : Nat) : w.varGet id =
    match w.stack.get? id with
    | some v => .ok v
    | none => .error (.illegalState ("Attempting to call unbound fn: #\x27" ++ (w.var id).name.render)) := by
  have hbound : w.stack.bound? id = w.bindings.findSome? (·.lookup id) := List.findSome?_map ..
  have hget : w.stack.get? id = (w.threadValue? id).or (w.var id).root := by
    rw [get?, hbound, threadValue?]
    show (if (w.var id).dynamic then _ else _) = _
    split
    · rfl
    · exact Option.none_or.symm
  rw [hget]
  rfl

theorem frameMap_bindIn (frame : List (Nat × Value)) (id : Nat) (value : Value) :
    frameMap (bindIn frame id value) = Function.update (frameMap frame) id (some value) := by
  funext other
  rw [Function.update_apply, frameMap, bindIn, List.lookup_cons]
  by_cases heq : other = id
  · rw [if_pos heq, beq_iff_eq.2 heq]
  · rw [if_neg heq, beq_false_of_ne heq]
    show (frame.filter (·.1 != id)).lookup other = frame.lookup other
    induction frame with
    | nil => rfl
    | cons e es ih =>
      rw [List.lookup_cons]
      by_cases he : e.1 = id
      · rw [List.filter_cons_of_neg (by simpa using he), ih, he, beq_false_of_ne heq]
      · rw [List.filter_cons_of_pos (by simpa using he), List.lookup_cons, ih]

theorem frameMap_bindAll (bindings : List (Nat × Value)) :
    frameMap (bindings.foldl (fun fr (id, v) => bindIn fr id v) []) = frameOf bindings := by
  suffices ∀ frame : List (Nat × Value), frameMap (bindings.foldl (fun fr (id, v) => bindIn fr id v) frame) =
      bindings.foldl (fun (f : Nat → Option Value) e => Function.update f e.1 (some e.2)) (frameMap frame) from this []
  induction bindings with
  | nil => exact fun frame => rfl
  | cons e es ih => exact fun frame => by rw [List.foldl_cons, List.foldl_cons, ih, frameMap_bindIn]

theorem any_eq_isSome (frame : List (Nat × Value)) (id : Nat) : (frame.any fun e => e.1 == id) = (frameMap frame id).isSome := by
  induction frame with
  | nil => rfl
  | cons e es ih =>
    rw [List.any_cons, ih, frameMap, frameMap, List.lookup_cons]
    by_cases he : e.1 = id
    · rw [he, beq_self_eq_true]
      rfl
    · rw [beq_false_of_ne he, beq_false_of_ne (Ne.symm he)]
      rfl

theorem frameMap_map (frame : List (Nat × Value)) (id : Nat) (value : Value) (other : Nat) :
    frameMap (frame.map fun e => if e.1 == id then (id, value) else e) other =
      if other = id then (frameMap frame id).map fun _ => value else frameMap frame other := by
  simp only [frameMap]
  induction frame with
  | nil => exact (ite_self _).symm
  | cons e es ih =>
    rw [List.map_cons, List.lookup_cons, ih, List.lookup_cons, List.lookup_cons]
    by_cases he : e.1 = id
    · rw [if_pos (beq_iff_eq.2 he), he, beq_self_eq_true]
      by_cases ho : other = id
      · rw [if_pos ho, if_pos ho, beq_iff_eq.2 ho]
        rfl
      · rw [if_neg ho, if_neg ho, beq_false_of_ne ho]
    · rw [if_neg (by simpa using he), beq_false_of_ne (Ne.symm he)]
      by_cases ho : other = id
      · rw [if_pos ho, if_pos ho, ho, beq_false_of_ne (Ne.symm he)]
      · rw [if_neg ho, if_neg ho]

theorem frameMap_replace (hid : (frameMap frame id).isSome) (value : Value) :
    frameMap (frame.map fun e => if e.1 == id then (id, value) else e) = Function.update (frameMap frame) id (some value) := by
  obtain ⟨old, hold⟩ := Option.isSome_iff_exists.1 hid
  funext other
  rw [frameMap_map, hold, Function.update_apply]
  rfl

theorem map_setBinding (id : Nat) (value : Value) (frames : List (List (Nat × Value))) :
    (setBinding id value frames).map (·.map frameMap) = rebind id value (frames.map frameMap) := by
  induction frames with
  | nil => rfl
  | cons frame rest ih =>
    rw [setBinding, List.map_cons, rebind, any_eq_isSome]
    split
    · rename_i hsome
      rw [Option.map_some, List.map_cons, frameMap_replace hsome]
    · rw [← ih, Option.map_map, Option.map_map]
      rfl

theorem checkDynamic_eq (w : World) (bindings : List (Nat × Value)) :
    match (Core.checkDynamic w bindings : Except Failure Unit) with
    | .ok _ => (bindings.all fun e => w.stack.dynamic e.1) = true
    | .error _ => (bindings.all fun e => w.stack.dynamic e.1) = false := by
  induction bindings with
  | nil => rfl
  | cons e es ih =>
    obtain ⟨id, value⟩ := e
    rw [Core.checkDynamic, List.all_cons]
    by_cases hd : (w.var id).dynamic
    · rw [if_pos hd, show w.stack.dynamic id = true from hd, Bool.true_and]
      exact ih
    · rw [if_neg hd, show w.stack.dynamic id = false from Bool.eq_false_iff.2 hd, Bool.false_and]

theorem stack_modifyVar (h : id < w.vars.size) (f : Var → Var) : (w.modifyVar id f).stack =
    ⟨w.stack.frames, Function.update w.stack.root id (f (w.var id)).root, Function.update w.stack.dynamic id (f (w.var id)).dynamic⟩ := by
  simp only [stack, bindings_modifyVar, BindingStack.mk.injEq, true_and]
  constructor
  · funext other
    rw [var_modifyVar h, Function.update_apply, apply_ite Var.root]
  · funext other
    rw [var_modifyVar h, Function.update_apply, apply_ite Var.dynamic]

theorem stack_bindRoot (h : id < w.vars.size) (value : Value) : (w.modifyVar id fun v => { v with root := some value }).stack =
    { w.stack with root := Function.update w.stack.root id (some value) } :=
  (stack_modifyVar h _).trans (congrArg (BindingStack.mk _ _) (Function.update_eq_self id w.stack.dynamic))

theorem stack_setInfo (h : id < w.vars.size) (info : Value) : (w.modifyVar id fun v => v.setInfo info).stack =
    { w.stack with dynamic := Function.update w.stack.dynamic id (Var.marked "dynamic" info) } :=
  (stack_modifyVar h _).trans (congrArg (BindingStack.mk _ · _) (Function.update_eq_self id w.stack.root))

end World

namespace VarEvent

variable {w : World}

/-- An event as a run. -/
def run : VarEvent → Run PUnit
  | .push m => do let _ ← Core.pushBindings m
  | .pop => do let _ ← Core.popBindings
  | .set id value => do let _ ← Machine.setVar id value
  | .bindRoot id value => Run.modify fun w => w.modifyVar id fun v => { v with root := some value }
  | .setInfo id info => Run.modify fun w => w.modifyVar id fun v => v.setInfo info

/-- The var that is defined is one of so many. -/
def Below (n : Nat) : VarEvent → Prop
  | .bindRoot id _ | .setInfo id _ => id < n
  | .push _ | .pop | .set _ _ => True

/-- **The world does what the stack does.**  Where the stack refuses, an exception is thrown and nothing else changes. -/
theorem run_eq (e : VarEvent) (he : e.Below w.vars.size) :
    match w.stack.step e with
    | some t => ∃ w', e.run w = (.value ⟨⟩, w') ∧ w'.stack = t ∧ w'.vars.size = w.vars.size
    | none => ∃ failure, e.run w = Run.raise failure w := by
  cases e with
  | push m =>
    rw [BindingStack.step]
    cases hm : Core.bindingsOf m with
    | error failure =>
      refine ⟨failure, Run.bind_thrown ?_⟩
      rw [Core.pushBindings, hm]
      rfl
    | ok bindings =>
      have hcheck := World.checkDynamic_eq w bindings
      cases hc : Core.checkDynamic w bindings with
      | error failure =>
        rw [hc] at hcheck
        dsimp only
        rw [if_neg (ne_true_of_eq_false hcheck)]
        refine ⟨failure, Run.bind_thrown ?_⟩
        rw [Core.pushBindings, hm]
        refine Run.bind_thrown (x := Run.ofExcept (Core.checkDynamic w bindings)) ?_
        rw [hc]
        rfl
      | ok u =>
        rw [hc] at hcheck
        dsimp only
        rw [if_pos hcheck]
        let frames := bindings.foldl (fun fr (id, v) => World.bindIn fr id v) [] :: w.bindings
        have hchecked : Run.ofExcept (Core.checkDynamic w bindings) w = (.value u, w) := by
          rw [hc]
          rfl
        have hpush : Core.pushBindings m w = (.value .nil, { w with bindings := frames }) := by
          rw [Core.pushBindings, hm]
          exact Run.bind_value hchecked
        refine ⟨{ w with bindings := frames }, Run.bind_value hpush, ?_, rfl⟩
        rw [← World.frameMap_bindAll]
        rfl
  | pop =>
    rw [BindingStack.step]
    cases hb : w.bindings with
    | nil =>
      rw [show w.stack.frames = [] from congrArg (List.map World.frameMap) hb]
      have hpop : Core.popBindings w = Run.raise (.illegalState "Pop without matching push") w := by
        simp only [Core.popBindings, Bind.bind, Run.bind, Run.world, hb]
      exact ⟨_, Run.bind_thrown hpop⟩
    | cons frame rest =>
      rw [show w.stack.frames = World.frameMap frame :: rest.map World.frameMap from congrArg (List.map World.frameMap) hb]
      refine ⟨{ w with bindings := rest }, ?_, rfl, rfl⟩
      simp only [run, Core.popBindings, Bind.bind, Run.bind, Run.world, hb]
      rfl
  | set id value =>
    have hset := World.map_setBinding id value w.bindings
    rw [BindingStack.step, show rebind id value w.stack.frames = _ from hset.symm]
    cases hb : World.setBinding id value w.bindings with
    | none =>
      refine ⟨.illegalState ("Can\x27t change/establish root binding of: " ++ (w.var id).name.name ++ " with set"), Run.bind_thrown ?_⟩
      simp only [Machine.setVar, Bind.bind, Run.bind, Run.world, hb]
      rfl
    | some bindings =>
      refine ⟨{ w with bindings }, ?_, rfl, rfl⟩
      simp only [run, Machine.setVar, Bind.bind, Run.bind, Run.world, hb]
      rfl
  | bindRoot id value => exact ⟨_, rfl, World.stack_bindRoot he value, World.size_modifyVar ..⟩
  | setInfo id info => exact ⟨_, rfl, World.stack_setInfo he info, World.size_modifyVar ..⟩

/-- The world after events, whichever of them throw. -/
def runAll (w : World) (events : List VarEvent) : World := events.foldl (fun w e => (e.run w).2) w

/-- **Any events do to the world what they do to the stack.** -/
theorem stack_runAll {events : List VarEvent} (h : ∀ e ∈ events, e.Below w.vars.size) :
    (runAll w events).stack = w.stack.runAll events := by
  induction events generalizing w with
  | nil => rfl
  | cons e events ih =>
    obtain ⟨he, hevents⟩ := List.forall_mem_cons.1 h
    have hrun := run_eq e he
    have hnext : (e.run w).2.stack = (w.stack.step e).getD w.stack ∧ (e.run w).2.vars.size = w.vars.size := by
      cases ht : w.stack.step e with
      | none =>
        rw [ht] at hrun
        obtain ⟨failure, hfail⟩ := hrun
        rw [hfail]
        exact ⟨rfl, rfl⟩
      | some t =>
        rw [ht] at hrun
        obtain ⟨w', hw', hstack, hsize⟩ := hrun
        rw [hw']
        exact ⟨hstack, hsize⟩
    rw [runAll, BindingStack.runAll, List.foldl_cons, List.foldl_cons, ← hnext.1]
    exact ih (hnext.2 ▸ hevents)

/-- **A read gives the innermost binding, or else the root**, as long as no var loses its dynamic flag while a frame binds it. -/
theorem varGet_runAll {events : List VarEvent} (hsteady : w.stack.Steady) (h : ∀ e ∈ events, e.Below w.vars.size)
    (hkeeps : w.stack.KeepsAll events) (id : Nat) :
    (runAll w events).varGet id =
      match ((w.stack.runAll events).bound? id).or ((w.stack.runAll events).root id) with
      | some v => .ok v
      | none => .error (.illegalState ("Attempting to call unbound fn: #\x27" ++ ((runAll w events).var id).name.render)) := by
  rw [World.varGet_eq, stack_runAll h, (hsteady.runAll hkeeps).get?_eq]

end VarEvent

end LispMachine

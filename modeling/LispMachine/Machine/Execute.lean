import LispMachine.Machine.Step
/-!
# Running methods

`execute` runs a frame to its end; `answer` completes a call.  Both are bounded by an allowance that
every instruction and every call draws on, so they are total; when it is used up the run is cut short,
which is no value and no exception.  A larger allowance never changes an outcome
that was reached.

Nested activations are counted, and one too many throws a stack overflow.
-/
namespace LispMachine.Machine

def stackOverflow (depth : Nat) : Failure :=
  ⟨ClassId.stackOverflow, "Call stack exhausted at depth " ++ toString depth⟩

def paramSlots : List (Option Prim) → List Value → Except Failure (List Slot)
  | _, [] => .ok []
  | some p :: ps, v :: vs => do
    let s ← Slot.unbox v p
    return s :: (← paramSlots ps vs)
  | none :: ps, v :: vs => do return .obj v :: (← paramSlots ps vs)
  | [], v :: vs => do return .obj v :: (← paramSlots [] vs)

/-- The frame of a new activation: the receiver in slot zero, then the parameters, then the rest of
the arguments as a list. -/
def enter (unit : Nat) (m : Method) (this : Value) (args : List Value) : Run Frame := do
  let params ← Run.ofExcept (paramSlots m.params (args.take m.arity))
  let spread := args.drop m.arity
  let rest ← if m.variadic then
      (if spread.isEmpty then pure [Slot.empty] else do return [Slot.obj (← Run.newList spread)])
    else pure []
  let used := Slot.obj this :: params ++ rest
  let locals := (used ++ List.replicate (m.maxLocals - used.length) Slot.empty).toArray
  return { unit, method := m, this, locals, stack := [], pc := 0 }

def handlerFor? (w : World) (m : Method) (pc : Nat) (thrown : Value) : Option Nat :=
  m.handlers.findSome? fun h => do
    let start ← m.labelPc? h.start
    let stop ← m.labelPc? h.stop
    if pc < start || stop ≤ pc then none
    else
      let matching := match h.catches with
        | none => true
        | some name =>
          match w.classes.lookup? name with
          | some c => w.isInstance thrown c.id
          | none => false
      if matching then m.labelPc? h.target else none

mutual

/-- Runs a frame to its end, at the given depth of nesting. -/
def execute : Nat → Nat → Frame → Run Value
  | 0, _, _ => fun w => (.cut, w)
  | fuel + 1, depth, f => fun w =>
    match f.method.code[f.pc]? with
    | none => Run.raise (.internal "control fell off the end") w
    | some i =>
      match step { f with pc := f.pc + 1 } i w with
      | (.value (.next g), w) => execute fuel depth g w
      | (.value (.done v), w) => (.value v, w)
      | (.value (.call g a), w) =>
        match answer fuel depth a w with
        | (.value v, w) => execute fuel depth (g.pushValue v) w
        | (.thrown t, w) => resume fuel depth f t w
        | (.cut, w) => (.cut, w)
      | (.thrown t, w) => resume fuel depth f t w
      | (.cut, w) => (.cut, w)

/-- Goes on in the handler for an exception, if there is one, with the exception alone on the
stack. -/
def resume : Nat → Nat → Frame → Value → Run Value
  | 0, _, _, _ => fun w => (.cut, w)
  | fuel + 1, depth, f, t => fun w =>
    match handlerFor? w f.method f.pc t with
    | some pc => execute fuel depth { f with stack := [.obj t], pc } w
    | none => (.thrown t, w)

def answer : Nat → Nat → Answer → Run Value
  | 0, _, _ => fun w => (.cut, w)
  | fuel + 1, depth, a => fun w =>
    match a with
    | .value v => (.value v, w)
    | .enter unit m this args =>
      if !m.accepts args.length then
        Run.raise (.arity args.length (loadedUnit w unit).unit.name) w
      else if depth ≥ w.depthLimit then Run.raise (stackOverflow depth) w
      else
        match enter unit m this args w with
        | (.value f, w) => execute fuel (depth + 1) f w
        | (.thrown t, w) => (.thrown t, w)
        | (.cut, w) => (.cut, w)
    | .again f args => invokeValue fuel depth f args w
    | .map f rows =>
      match mapCalls fuel depth f [] rows w with
      | (.value vs, w) => Run.newList vs w
      | (.thrown t, w) => (.thrown t, w)
      | (.cut, w) => (.cut, w)
    | .filter f items =>
      match filterCalls fuel depth f [] items w with
      | (.value vs, w) => Run.newList vs w
      | (.thrown t, w) => (.thrown t, w)
      | (.cut, w) => (.cut, w)
    | .reduce f init items => reduceCalls fuel depth f init items w

def invokeValue : Nat → Nat → Value → List Value → Run Value
  | 0, _, _, _ => fun w => (.cut, w)
  | fuel + 1, depth, f, args => fun w =>
    match invoke f args w with
    | (.value a, w) => answer fuel depth a w
    | (.thrown t, w) => (.thrown t, w)
    | (.cut, w) => (.cut, w)

/-- One call for each row of arguments; the results so far are given in reverse. -/
def mapCalls : Nat → Nat → Value → List Value → List (List Value) → Run (List Value)
  | 0, _, _, _, _ => fun w => (.cut, w)
  | fuel + 1, depth, f, done, rows => fun w =>
    match rows with
    | [] => (.value done.reverse, w)
    | row :: rows =>
      match invokeValue fuel depth f row w with
      | (.value v, w) => mapCalls fuel depth f (v :: done) rows w
      | (.thrown t, w) => (.thrown t, w)
      | (.cut, w) => (.cut, w)

/-- One call for each item; the items whose call gives a true value are kept, those so far in
reverse. -/
def filterCalls : Nat → Nat → Value → List Value → List Value → Run (List Value)
  | 0, _, _, _, _ => fun w => (.cut, w)
  | fuel + 1, depth, f, kept, items => fun w =>
    match items with
    | [] => (.value kept.reverse, w)
    | item :: items =>
      match invokeValue fuel depth f [item] w with
      | (.value v, w) => filterCalls fuel depth f (if v.isTruthy then item :: kept else kept) items w
      | (.thrown t, w) => (.thrown t, w)
      | (.cut, w) => (.cut, w)

def reduceCalls : Nat → Nat → Value → Value → List Value → Run Value
  | 0, _, _, _, _ => fun w => (.cut, w)
  | fuel + 1, depth, f, acc, items => fun w =>
    match items with
    | [] => (.value acc, w)
    | item :: items =>
      match invokeValue fuel depth f [acc, item] w with
      | (.value v, w) => reduceCalls fuel depth f v items w
      | (.thrown t, w) => (.thrown t, w)
      | (.cut, w) => (.cut, w)

end

/-- The allowance of a call from outside: more instructions than any session lives to see. -/
def allowance : Nat := Nat.pow 2 60

/-- Calls a value from outside compiled code. -/
def call (f : Value) (args : List Value) : Run Value := invokeValue allowance 0 f args

def finish (a : Answer) : Run Value := answer allowance 0 a

end LispMachine.Machine

import LispMachine.Code.Unit
/-!
# Checking units

A unit is well formed if every label is bound, every index is in range and every instruction is
reached with one and the same number of slots on the operand stack, whatever way control takes.
The stack check visits instructions from a list of pending ones; each visit settles one more
instruction, so it ends.

Main definitions: `VerifyError` and its wording, `CompiledUnit.verify`.
-/
namespace LispMachine

/-- Why a unit is refused.  Each names the method; most also the instruction. -/
inductive VerifyError where
  | unboundLabel (method : String) (label : Label)
  | badJump (method : String) (pc : Nat) (label : Label)
  | localOutOfRange (method : String) (pc slot limit : Nat)
  | indexOutOfRange (method : String) (pc : Nat) (what : String) (index : Nat)
  | stackUnderflow (method : String) (pc : Nat)
  | stackMismatch (method : String) (pc expected found : Nat)
  | fallsOffEnd (method : String)
  | badHandler (method : String)
  deriving DecidableEq, Repr

def VerifyError.name : VerifyError → String
  | .unboundLabel .. => "UnboundLabel"
  | .badJump .. => "BadJump"
  | .localOutOfRange .. => "LocalOutOfRange"
  | .indexOutOfRange .. => "IndexOutOfRange"
  | .stackUnderflow .. => "StackUnderflow"
  | .stackMismatch .. => "StackMismatch"
  | .fallsOffEnd _ => "FallsOffEnd"
  | .badHandler _ => "BadHandler"

def VerifyError.message : VerifyError → String
  | .unboundLabel m l => m ++ ": label " ++ toString l ++ " is never bound"
  | .badJump m pc l => m ++ "@" ++ toString pc ++ ": jump to undefined label " ++ toString l
  | .localOutOfRange m pc slot limit =>
    m ++ "@" ++ toString pc ++ ": local " ++ toString slot ++ " out of range (max_locals " ++
      toString limit ++ ")"
  | .indexOutOfRange m pc what index =>
    m ++ "@" ++ toString pc ++ ": " ++ what ++ " index " ++ toString index ++ " out of range"
  | .stackUnderflow m pc => m ++ "@" ++ toString pc ++ ": stack underflow"
  | .stackMismatch m pc expected found =>
    m ++ "@" ++ toString pc ++ ": inconsistent stack depth (" ++ toString expected ++ " vs " ++
      toString found ++ ")"
  | .fallsOffEnd m => m ++ ": control falls off the end of the code"
  | .badHandler m => m ++ ": invalid handler range"

namespace Verify

abbrev Checked := Except VerifyError Unit

/-! ## Labels and handlers -/

/-- Labels, counted from `l`, that are bound inside the code or at its end. -/
def checkLabels (name : String) (size : Nat) : Label → List (Option Nat) → Checked
  | _, [] => .ok ()
  | l, none :: _ => .error (.unboundLabel name l)
  | l, some pc :: rest =>
    if pc > size then .error (.unboundLabel name l) else checkLabels name size (l + 1) rest

def handlerOk (m : Method) (h : Handler) : Bool :=
  match m.labelPc? h.start, m.labelPc? h.stop, m.labelPc? h.target with
  | some s, some e, some _ => s ≤ e
  | _, _, _ => false

def checkHandlers (name : String) (m : Method) : Checked :=
  if m.handlers.all (handlerOk m) then .ok () else .error (.badHandler name)

/-! ## Indices -/

structure Limits where
  constants : Nat
  fields : Nat
  keywordSites : Nat
  protocolSites : Nat
  /-- The number of fields of each nested unit. -/
  children : List Nat

/-- What an instruction refers to: the table's name, the index and the table's size. -/
def references (limits : Limits) : Instr → List (String × Nat × Nat)
  | .loadField i | .loadFieldClear i | .storeField i => [("field", i, limits.fields)]
  | .const i | .varGet i | .varSet i | .getStatic i | .getFieldReflective i | .instanceOf i
  | .invokeStatic i _ | .invokeVirtual i _ | .invokeReflective i _ | .getField i _ | .new i _
  | .newReflective i _ | .newInstance i _ => [("constant", i, limits.constants)]
  | .varDef v _ info =>
    ("constant", v, limits.constants) ::
      (match info with
        | some i => [("constant", i, limits.constants)]
        | none => [])
  | .invokeStaticReflective c i _ =>
    [("constant", c, limits.constants), ("constant", i, limits.constants)]
  | .newFn u _ => [("unit", u, limits.children.length)]
  | .keywordInvoke s => [("keyword site", s, limits.keywordSites)]
  | .protocolInvoke s _ => [("protocol site", s, limits.protocolSites)]
  | _ => []

def localOf? : Instr → Option Nat
  | .load s | .loadClear s | .store s | .clear s => some s
  | _ => none

def checkLocal (name : String) (m : Method) (pc : Nat) (i : Instr) : Checked :=
  match localOf? i with
  | some slot =>
    if slot < m.maxLocals then .ok () else .error (.localOutOfRange name pc slot m.maxLocals)
  | none => .ok ()

def checkReferences (name : String) (pc : Nat) : List (String × Nat × Nat) → Checked
  | [] => .ok ()
  | (what, index, size) :: rest =>
    if index < size then checkReferences name pc rest
    else .error (.indexOutOfRange name pc what index)

/-- A closure takes as many values as its unit closes over. -/
def checkCaptured (name : String) (limits : Limits) (pc : Nat) : Instr → Checked
  | .newFn u captured =>
    if limits.children[u]? == some captured then .ok ()
    else .error (.indexOutOfRange name pc "capture count" captured)
  | _ => .ok ()

def checkTargets (name : String) (m : Method) (pc : Nat) : List Label → Checked
  | [] => .ok ()
  | l :: ls =>
    if (m.labelPc? l).isSome then checkTargets name m pc ls else .error (.badJump name pc l)

def checkInstr (name : String) (limits : Limits) (m : Method) (pc : Nat) (i : Instr) : Checked := do
  checkLocal name m pc i
  checkReferences name pc (references limits i)
  checkCaptured name limits pc i
  checkTargets name m pc i.targets

def checkCode (name : String) (limits : Limits) (m : Method) : Nat → List Instr → Checked
  | _, [] => .ok ()
  | pc, i :: rest => do
    checkInstr name limits m pc i
    checkCode name limits m (pc + 1) rest

/-! ## Stack depths -/

/-- An instruction that is still to be visited, and the depth with which it is reached. -/
abbrev Pending := Nat × Nat

/-- The instructions reached from one instruction, the last one to be visited first. -/
def successors (m : Method) (pc depth : Nat) (i : Instr) : List Pending :=
  let (pops, pushes) := i.effect
  let next := depth - pops + pushes
  let jumps := (i.targets.filterMap m.labelPc?).map fun pc => (pc, next)
  (if i.isTerminal then jumps else jumps ++ [(pc + 1, next)]).reverse

/-- The start of a method and its handlers, the last one to be visited first. -/
def entries (m : Method) : List Pending :=
  ((0, 0) :: (m.handlers.filterMap fun h => m.labelPc? h.target).map fun pc => (pc, 1)).reverse

/-- More visits than any run of the check makes: each instruction is settled once, and only then
adds its successors. -/
def visitBound (m : Method) : Nat :=
  m.code.toList.foldr (fun i n => i.targets.length + 2 + n) ((entries m).length + 1)

def visit (name : String) (m : Method) : Nat → Array (Option Nat) → List Pending → Checked
  | 0, _, _ => .ok ()
  | _, _, [] => .ok ()
  | fuel + 1, depths, (pc, depth) :: work =>
    match (depths[pc]?).join with
    | some known =>
      if known == depth then visit name m fuel depths work
      else .error (.stackMismatch name pc known depth)
    | none =>
      match m.code[pc]? with
      | none => .error (.fallsOffEnd name)
      | some i =>
        if depth < i.effect.1 then .error (.stackUnderflow name pc)
        else
          visit name m fuel (depths.modify pc fun _ => some depth)
            (successors m pc depth i ++ work)

def checkStack (name : String) (m : Method) : Checked :=
  visit name m (visitBound m) (Array.replicate m.code.size none) (entries m)

/-! ## Methods and units -/

def checkMethod (unitName : String) (limits : Limits) (m : Method) : Checked := do
  let name := unitName ++ "/" ++ m.name
  checkLabels name m.code.size 0 m.labels.toList
  checkHandlers name m
  checkCode name limits m 0 m.code.toList
  checkStack name m

def checkMethods (unitName : String) (limits : Limits) : List Method → Checked
  | [] => .ok ()
  | m :: ms => do
    checkMethod unitName limits m
    checkMethods unitName limits ms

end Verify

namespace CompiledUnit

def limits (u : CompiledUnit) : Verify.Limits :=
  { constants := u.constants.size, fields := u.closed.length, keywordSites := u.keywordSites.size,
    protocolSites := u.protocolSites.size, children := u.children.map (·.closed.length) }

mutual

def verify : CompiledUnit → Except VerifyError Unit
  | ⟨name, kind, methods, closed, constants, keywordSites, protocolSites, children⟩ => do
    let u : CompiledUnit :=
      ⟨name, kind, methods, closed, constants, keywordSites, protocolSites, children⟩
    Verify.checkMethods name u.limits methods
    verifyAll children

def verifyAll : List CompiledUnit → Except VerifyError Unit
  | [] => .ok ()
  | u :: us => do
    verify u
    verifyAll us

end

end CompiledUnit

end LispMachine

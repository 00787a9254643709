import LispMachine.Prim
import LispMachine.Double.Printer
/-!
# Instructions

The instruction set of the stack machine.  Operands that name constants, nested units, call sites or
labels are indices into the tables of the unit or method that holds the instruction.

`effect`, `targets` and `isTerminal` say all that a checker of control flow needs to know.
-/
namespace LispMachine

/-- A jump target, resolved through the label table of its method. -/
abbrev Label := Nat

inductive Instr where
  | const (i : Nat)
  | nil
  | pushBool (b : Bool)
  | pushLong (n : Int64)
  | pushDouble (d : Float)
  | pushInt (n : Int32)
  | pop
  | dup
  | box (p : Prim)
  | unbox (p : Prim)
  | convert (source target : Prim)
  | load (slot : Nat)
  /-- Loads a slot and empties it. -/
  | loadClear (slot : Nat)
  | store (slot : Nat)
  | clear (slot : Nat)
  | loadThis
  | loadField (i : Nat)
  | loadFieldClear (i : Nat)
  | storeField (i : Nat)
  /-- Pops a value and a closure and stores the value into that closure's field. -/
  | initField (i : Nat)
  | varGet (var : Nat)
  | varSet (var : Nat)
  | varDef (var : Nat) (init : Bool) (info : Option Nat)
  | jump (l : Label)
  | jumpIfFalsy (l : Label)
  | jumpIfFalse (l : Label)
  | jumpIfNotEquiv (l : Label)
  | jumpIfNotIdentical (l : Label)
  | hash
  | shiftMask (shift : Nat) (mask : UInt32)
  | tableSwitch (low : Int32) (targets : List Label) (otherwise : Label)
  | lookupSwitch (keys : List Int32) (targets : List Label) (otherwise : Label)
  | invoke (argc : Nat)
  | invokeStatic (member argc : Nat)
  | invokeVirtual (member argc : Nat)
  | invokeReflective (member argc : Nat)
  | invokeStaticReflective (type member argc : Nat)
  | getStatic (member : Nat)
  | getField (type index : Nat)
  | getFieldReflective (member : Nat)
  | new (ctor argc : Nat)
  | newReflective (type argc : Nat)
  | newInstance (type argc : Nat)
  | newFn (unit captured : Nat)
  | keywordInvoke (site : Nat)
  | protocolInvoke (site argc : Nat)
  | instanceOf (type : Nat)
  | makeVector (n : Nat)
  | makeMap (n : Nat)
  | makeSet (n : Nat)
  | throw
  | return
  deriving Inhabited

namespace Instr

/-- How many slots the instruction pops, and how many it pushes when control goes on. -/
def effect : Instr → Nat × Nat
  | .const _ | .nil | .pushBool _ | .pushLong _ | .pushDouble _ | .pushInt _ => (0, 1)
  | .pop => (1, 0)
  | .dup => (1, 2)
  | .box _ | .unbox _ | .convert .. => (1, 1)
  | .load _ | .loadClear _ | .loadThis | .loadField _ | .loadFieldClear _ => (0, 1)
  | .store _ | .storeField _ => (1, 0)
  | .initField _ => (2, 0)
  | .clear _ => (0, 0)
  | .varGet _ => (0, 1)
  | .varSet _ => (1, 1)
  | .varDef _ init _ => (if init then 1 else 0, 1)
  | .jump _ => (0, 0)
  | .jumpIfFalsy _ | .jumpIfFalse _ => (1, 0)
  | .jumpIfNotEquiv _ | .jumpIfNotIdentical _ => (2, 0)
  | .hash | .shiftMask .. => (1, 1)
  | .tableSwitch .. | .lookupSwitch .. => (1, 0)
  | .invoke argc => (argc + 1, 1)
  | .invokeStatic _ argc => (argc, 1)
  | .invokeVirtual _ argc | .invokeReflective _ argc => (argc + 1, 1)
  | .invokeStaticReflective _ _ argc => (argc, 1)
  | .getStatic _ => (0, 1)
  | .getField .. | .getFieldReflective _ => (1, 1)
  | .new _ argc | .newReflective _ argc | .newInstance _ argc => (argc, 1)
  | .newFn _ captured => (captured, 1)
  | .keywordInvoke _ => (1, 1)
  | .protocolInvoke _ argc => (argc, 1)
  | .instanceOf _ => (1, 1)
  | .makeVector n | .makeSet n => (n, 1)
  | .makeMap n => (n * 2, 1)
  | .throw | .return => (1, 0)

def targets : Instr → List Label
  | .jump l | .jumpIfFalsy l | .jumpIfFalse l | .jumpIfNotEquiv l | .jumpIfNotIdentical l => [l]
  | .tableSwitch _ ls l | .lookupSwitch _ ls l => ls ++ [l]
  | _ => []

/-- Whether control never goes on to the next instruction. -/
def isTerminal : Instr → Bool
  | .jump _ | .throw | .return | .tableSwitch .. | .lookupSwitch .. => true
  | _ => false

end Instr

end LispMachine

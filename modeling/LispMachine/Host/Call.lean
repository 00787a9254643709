import LispMachine.Core.Collections
import LispMachine.Numbers
import LispMachine.Double.Reader
import LispMachine.Text.Case
import LispMachine.Text.Blank
/-!
# Running host members

The arguments come as slots, the receiver of a method first.  A member finds its arguments by
position and refuses those of the wrong kind.
-/
namespace LispMachine.Host

/-! ## Arguments -/

def badArgument (i : Nat) : Failure := .illegalArgument ("bad host argument " ++ toString i)

def need {α : Type} (i : Nat) : Option α → Except Failure α
  | some a => .ok a
  | none => .error (badArgument i)

def longArg (args : List Slot) (i : Nat) : Except Failure Int64 := need i ((args[i]?).bind Slot.long?)

def doubleArg (args : List Slot) (i : Nat) : Except Failure Float :=
  need i ((args[i]?).bind Slot.double?)

def intArg (args : List Slot) (i : Nat) : Except Failure Int32 := need i ((args[i]?).bind Slot.int?)

def objArg (args : List Slot) (i : Nat) : Value := ((args[i]?).map Slot.toValue).getD .nil

def textArg (args : List Slot) (i : Nat) : Except Failure String :=
  match objArg args i with
  | .str s => .ok s
  | .nil => .error (.nullPointer "null string")
  | v => .error (.classCast v "String")

/-! ## Numbers -/

def arithLong : Arith → Int64 → Int64 → Except Failure Int64
  | .add => Numbers.addLong
  | .minus => Numbers.subLong
  | .multiply => Numbers.mulLong

def arithDouble : Arith → Float → Float → Float
  | .add => (· + ·)
  | .minus => (· - ·)
  | .multiply => (· * ·)

def arithBoxed : Arith → Value → Value → Except Failure Value
  | .add => Numbers.add
  | .minus => Numbers.minus
  | .multiply => Numbers.multiply

def compareLong : Comparison → Int64 → Int64 → Bool
  | .lt => fun a b => a.toInt < b.toInt
  | .lte => fun a b => a.toInt ≤ b.toInt
  | .gt => fun a b => a.toInt > b.toInt
  | .gte => fun a b => a.toInt ≥ b.toInt
  | .equiv => fun a b => a == b

def compareDouble : Comparison → Float → Float → Bool
  | .lt => fun a b => a < b
  | .lte => fun a b => a ≤ b
  | .gt => fun a b => a > b
  | .gte => fun a b => a ≥ b
  | .equiv => fun a b => a == b

def compareBoxed : Comparison → Value → Value → Except Failure Bool
  | .lt => Numbers.lt
  | .lte => Numbers.lte
  | .gt => Numbers.gt
  | .gte => Numbers.gte
  | .equiv => Numbers.numEquiv

def signLong : SignTest → Int64 → Bool
  | .zero => fun a => a == 0
  | .pos => fun a => a.toInt > 0
  | .neg => fun a => a.toInt < 0

def signDouble : SignTest → Float → Bool
  | .zero => fun a => a == 0.0
  | .pos => fun a => a > 0.0
  | .neg => fun a => a < 0.0

def signBoxed : SignTest → Value → Except Failure Bool
  | .zero => Numbers.isZero
  | .pos => Numbers.isPos
  | .neg => Numbers.isNeg

/-- Members that only compute. -/
def calculate (op : HostOp) (args : List Slot) : Except Failure Slot :=
  match op with
  | .arith op .long => do return .long (← arithLong op (← longArg args 0) (← longArg args 1))
  | .arith op .double => do return .double (arithDouble op (← doubleArg args 0) (← doubleArg args 1))
  | .arith op .boxed => do return .obj (← arithBoxed op (objArg args 0) (objArg args 1))
  | .compare op .long => do return .bool (compareLong op (← longArg args 0) (← longArg args 1))
  | .compare op .double => do return .bool (compareDouble op (← doubleArg args 0) (← doubleArg args 1))
  | .compare op .boxed => do return .bool (← compareBoxed op (objArg args 0) (objArg args 1))
  | .sign op .long => do return .bool (signLong op (← longArg args 0))
  | .sign op .double => do return .bool (signDouble op (← doubleArg args 0))
  | .sign op .boxed => do return .bool (← signBoxed op (objArg args 0))
  | .divideDouble => do return .double ((← doubleArg args 0) / (← doubleArg args 1))
  | .quotientLong => do
    let y ← longArg args 1
    if y == 0 then .error Numbers.divideByZero
    else return .long (← Numbers.quotLong (← longArg args 0) y)
  | .quotientBoxed => do return .obj (← Numbers.quotient (objArg args 0) (objArg args 1))
  | .remainderLong => do
    let y ← longArg args 1
    if y == 0 then .error Numbers.divideByZero
    else return .long (← Numbers.remLong (← longArg args 0) y)
  | .remainderBoxed => do return .obj (← Numbers.remainder (objArg args 0) (objArg args 1))
  | .inc .long => do return .long (← Numbers.addLong (← longArg args 0) 1)
  | .inc .double => do return .double ((← doubleArg args 0) + 1.0)
  | .inc .boxed => do return .obj (← Numbers.inc (objArg args 0))
  | .dec .long => do return .long (← Numbers.subLong (← longArg args 0) 1)
  | .dec .double => do return .double ((← doubleArg args 0) - 1.0)
  | .dec .boxed => do return .obj (← Numbers.dec (objArg args 0))
  | .intCastLong => do
    let n ← longArg args 0
    if n.toInt32.toInt64 == n then return .int n.toInt32
    else .error (.illegalArgument ("Value out of range for int: " ++ toString n.toInt))
  | .intCast => Slot.unbox (objArg args 0) .int
  | .longCastLong => do return .long (← longArg args 0)
  | .longCast => Slot.unbox (objArg args 0) .long
  | .doubleCastDouble => do return .double (← doubleArg args 0)
  | .doubleCast => Slot.unbox (objArg args 0) .double
  | .booleanCast => .ok (.bool (objArg args 0).isTruthy)
  | .equiv .long => do return .bool ((← longArg args 0) == (← longArg args 1))
  | .equiv .double => do return .bool ((← doubleArg args 0) == (← doubleArg args 1))
  | .equiv .boxed => .ok (.bool (Value.equiv (objArg args 0) (objArg args 1)))
  | .identical => .ok (.bool (Value.identical (objArg args 0) (objArg args 1)))
  | .hasheq => .ok (.int (objArg args 0).hash)
  | .hashCode => .ok (.int (objArg args 0).hash)
  | .equals => .ok (.bool (Value.equiv (objArg args 0) (objArg args 1)))
  | .count => do return .int (Int32.ofNat (← Coll.count (objArg args 0)))
  | .nth => do return .obj (← Coll.nth (objArg args 0) (← intArg args 1).toInt64 none)
  | .pi => .ok (.double (Float.ofBits 0x400921fb54442d18))
  | .e => .ok (.double (Float.ofBits 0x4005bf0a8b145769))
  | .absLong => do
    let n ← longArg args 0
    return .long (if n.toInt < 0 then -n else n)
  | .absDouble => do return .double (← doubleArg args 0).abs
  | .maxLong => do
    let a ← longArg args 0
    let b ← longArg args 1
    return .long (if a.toInt < b.toInt then b else a)
  | .maxDouble => do return .double (Double.maximum (← doubleArg args 0) (← doubleArg args 1))
  | .minLong => do
    let a ← longArg args 0
    let b ← longArg args 1
    return .long (if b.toInt < a.toInt then b else a)
  | .minDouble => do return .double (Double.minimum (← doubleArg args 0) (← doubleArg args 1))
  | .sqrt => do return .double (← doubleArg args 0).sqrt
  | .pow => do return .double ((← doubleArg args 0).pow (← doubleArg args 1))
  | .floor => do return .double (← doubleArg args 0).floor
  | .longMax => .ok (.long 9223372036854775807)
  | .longMin => .ok (.long (-9223372036854775808))
  | .longValueOf => do return .obj (.long (← longArg args 0))
  | .intMax => .ok (.int 2147483647)
  | .intMin => .ok (.int (-2147483648))
  | .doubleMax => .ok (.double (Float.ofBits 0x7fefffffffffffff))
  | .isNaN => do return .bool (Double.isNaN (← doubleArg args 0))
  | _ => .error (badArgument 0)

/-! ## Texts -/

def readLong? (text : String) : Option Int64 :=
  let (negative, digits) := Double.spanSign text.toList
  if digits.isEmpty || !digits.all Char.isDigit then none
  else
    let n := Int.ofNat (Double.digitsValue digits)
    (Numbers.fit (if negative then -n else n)).toOption

/-- A position in a text, its end included. -/
def position (cs : List Char) (i : Int32) : Except Failure Nat :=
  if i.toInt < 0 || i.toInt.toNat > cs.length then .error (.outOfBounds i.toInt)
  else .ok i.toInt.toNat

def indexIn? (needle : List Char) : List Char → Option Nat
  | [] => if needle.isEmpty then some 0 else none
  | c :: cs =>
    if needle.isPrefixOf (c :: cs) then some 0 else (indexIn? needle cs).map (· + 1)

def textual (op : HostOp) (args : List Slot) : Except Failure Slot :=
  match op with
  | .parseLong => do
    let s ← textArg args 0
    match readLong? (Text.trim s) with
    | some n => return .long n
    | none => .error (.illegalArgument ("For input string: \"" ++ s ++ "\""))
  | .parseDouble => do
    let s ← textArg args 0
    match Double.read? (Text.trim s) with
    | some d => return .double d
    | none => .error (.illegalArgument ("For input string: \"" ++ s ++ "\""))
  | .length => do return .int (Int32.ofNat (← textArg args 0).length)
  | .isEmpty => do return .bool (← textArg args 0).isEmpty
  | .toUpperCase => do return .obj (.str (Text.toUpper (← textArg args 0)))
  | .toLowerCase => do return .obj (.str (Text.toLower (← textArg args 0)))
  | .trim => do return .obj (.str (Text.trim (← textArg args 0)))
  | .substringFrom => do
    let cs := (← textArg args 0).toList
    let start ← position cs (← intArg args 1)
    return .obj (.str (String.ofList (cs.drop start)))
  | .substring => do
    let cs := (← textArg args 0).toList
    let start ← position cs (← intArg args 1)
    let stop ← position cs (← intArg args 2)
    if stop < start then .error (.outOfBounds (Int.ofNat stop - Int.ofNat start))
    else return .obj (.str (String.ofList ((cs.drop start).take (stop - start))))
  | .charAt => do
    let cs := (← textArg args 0).toList
    let i ← intArg args 1
    match Coll.at? cs i.toInt64 with
    | some c => return .obj (.char c)
    | none => .error (.outOfBounds i.toInt)
  | .indexOf => do
    let cs := (← textArg args 0).toList
    match indexIn? (← textArg args 1).toList cs with
    | some i => return .int (Int32.ofNat i)
    | none => return .int (-1)
  | .startsWith => do
    let cs := (← textArg args 0).toList
    return .bool ((← textArg args 1).toList.isPrefixOf cs)
  | .endsWith => do
    let cs := (← textArg args 0).toList
    return .bool ((← textArg args 1).toList.isSuffixOf cs)
  | .contains => do
    let cs := (← textArg args 0).toList
    return .bool (indexIn? (← textArg args 1).toList cs).isSome
  | .concat => do
    let a ← textArg args 0
    return .obj (.str (a ++ (← textArg args 1)))
  | op => calculate op args

/-! ## Members that use the world -/

def builderArg (args : List Slot) : Except Failure Nat :=
  match objArg args 0 with
  | .builder id => .ok id
  | v => .error (.classCast v "StringBuilder")

def newBuilder (text : String) : Run Slot :=
  Run.change fun w => (.obj (.builder w.builders.size), { w with builders := w.builders.push text })

def newException (type : ClassId) (message : Option String) (data : Value) : Run Slot := do
  return .obj (.exception (← Run.alloc 1) type message data none)

def call (op : HostOp) (args : List Slot) : Run Slot :=
  match op with
  | .get => do return .obj (Coll.get (← Run.world) (objArg args 0) (objArg args 1) .nil)
  | .toText | .valueOf => do return .obj (.str ((← Run.world).display (objArg args 0)))
  | .currentTimeMillis => do return .long (Int64.ofNat ((← Run.world).clock / 1000000))
  | .nanoTime => do return .long (Int64.ofNat (← Run.world).clock)
  | .newBuilder => newBuilder ""
  | .newBuilderOf => do newBuilder (← Run.ofExcept (textArg args 0))
  | .append => do
    let id ← Run.ofExcept (builderArg args)
    let text := (← Run.world).display (objArg args 1)
    Run.modify fun w => { w with builders := w.builders.modify id (· ++ text) }
    return .obj (.builder id)
  | .builderLength => do
    let id ← Run.ofExcept (builderArg args)
    return .int (Int32.ofNat (((← Run.world).builders[id]?).getD "").length)
  | .newException type => newException type none .nil
  | .newExceptionWith type => do newException type (some (← Run.ofExcept (textArg args 0))) .nil
  | .newExceptionInfo => do
    newException ClassId.exceptionInfo (some (← Run.ofExcept (textArg args 0))) (objArg args 1)
  | .getMessage =>
    match objArg args 0 with
    | .exception _ _ message _ _ => return .obj ((message.map Value.str).getD .nil)
    | v => Run.raise (.classCast v "Throwable")
  | .getData =>
    match objArg args 0 with
    | .exception _ _ _ data _ => return .obj data
    | v => Run.raise (.classCast v "ExceptionInfo")
  | .divideBoxed => do
    let x := objArg args 0
    let y := objArg args 1
    return .obj (← Numbers.unlessFatal x y (Numbers.divide x y))
  | op => Run.ofExcept (textual op args)

end LispMachine.Host

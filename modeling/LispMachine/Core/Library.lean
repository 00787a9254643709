import LispMachine.Core.Collections
import LispMachine.Numbers
/-!
# The core library

What each core function does with boxed arguments.  The four functions that call back into the
program (`map`, `filter`, `reduce`, `apply`) only prepare their calls here; the machine makes them.
-/
namespace LispMachine.Core

/-- What remains to be done after a core function has looked at its arguments. -/
inductive Reply where
  | value (v : Value)
  /-- One call, whose result is the result. -/
  | again (f : Value) (args : List Value)
  /-- One call for each row of arguments; the results make a list. -/
  | map (f : Value) (rows : List (List Value))
  /-- One call for each item; the items whose call gives a true value make a list. -/
  | filter (f : Value) (items : List Value)
  /-- Calls with the value so far and the next item. -/
  | reduce (f init : Value) (items : List Value)

def qualified (f : CoreFn) : String := coreNs ++ "/" ++ f.name

def arityFailure (f : CoreFn) (args : List Value) : Failure := .arity args.length (qualified f)

def checkArity (f : CoreFn) (least : Nat) (most : Option Nat) (args : List Value) : Run PUnit :=
  if args.length < least || (most.any fun n => args.length > n) then
    Run.raise (arityFailure f args)
  else return ⟨⟩

def longArg (v : Value) : Except Failure Int64 :=
  match v with
  | .long n => .ok n
  | v => .error (.classCast v "Long")

/-! ## Arithmetic -/

def foldNumbers (op : Value → Value → Except Failure Value) (init : Value) (args : List Value) :
    Except Failure Value :=
  args.foldlM op init

/-- A single argument is combined with the neutral value, several from left to right. -/
def foldFromFirst (f : CoreFn) (neutral : Value) (op : Value → Value → Run Value) : List Value → Run Value
  | [] => Run.raise (arityFailure f [])
  | [x] => op neutral x
  | x :: rest => Run.foldList op x rest

def allNeighbours (test : Value → Value → Except Failure Bool) : List Value → Except Failure Bool
  | x :: y :: rest => do
    if ← test x y then allNeighbours test (y :: rest) else return false
  | _ => return true

def chain (f : CoreFn) (test : Value → Value → Except Failure Bool) (args : List Value) :
    Except Failure Value :=
  match args with
  | [] => .error (arityFailure f [])
  | [x] => do
    let _ ← Numbers.Num.ofValue x
    return .bool true
  | args => do return .bool (← allNeighbours test args)

def allEqual : List Value → Bool
  | x :: y :: rest => Value.equiv x y && allEqual (y :: rest)
  | _ => true

/-- The one of two numbers that a test prefers; `nil` gives way to anything. -/
def prefer (test : Value → Value → Except Failure Bool) (a b : Value) : Except Failure Value := do
  if a.isNil then return b
  else if ← test b a then return b
  else return a

def toLong (v : Value) : Except Failure Value := do
  match ← Numbers.Num.ofValue v with
  | .long n => return .long n
  | .double d => return .long d.toInt64

/-- Whether a number is before the end, in the direction of the step. -/
def isBefore (stop step i : Int64) : Bool := (0 < step && i < stop) || (step < 0 && stop < i)

/-- The numbers from `i` on that are before the end, after those that are there already.  There are none if the
number after one of them does not have 64 bits, even if that one is the last. -/
def countOn (stop step : Int64) : Nat → Int64 → List Value → Option (List Value)
  | 0, _, _ => none
  | fuel + 1, i, out =>
    if isBefore stop step i then
      match Numbers.addLong i step with
      | .ok next => countOn stop step fuel next (.long i :: out)
      | .error _ => none
    else some out.reverse

/-- The numbers from `start` in steps of `step`, which are fewer than the words.  The machine does not survive a sum
with more than 64 bits. -/
def range (start stop step : Int64) : Run (List Value) :=
  if step == 0 then Run.raise (.illegalArgument "range step must not be zero")
  else
    match countOn stop step UInt64.size start [] with
    | some items => return items
    | none => Run.abort

/-! ## Texts and names -/

def joined (render : Value → String) (args : List Value) : String := " ".intercalate (args.map render)

def print (text : String) : Run Value := do
  Run.modify fun w => { w with out := w.out ++ text }
  return .nil

def nameOf : Value → Except Failure Value
  | .keyword k => .ok (.str k.name)
  | .symbol s _ => .ok (.str s.name)
  | .str s => .ok (.str s)
  | v => .error (.classCast v "Named")

def toKeyword : Value → Value
  | .str s => .kw s
  | .symbol s _ => .kw s.render
  | .keyword k => .keyword k
  | _ => .nil

def toSymbol : List Value → Except Failure Value
  | [.str s] => .ok (.symbol (Symbol.parse s) none)
  | [.symbol s info] => .ok (.symbol s info)
  | [.str ns, .str name] => .ok (.symbol (Symbol.qualified ns name) none)
  | _ => .error (.illegalArgument "symbol expects strings")

def nextGensym : Run Nat := Run.change fun w => (w.gensym, { w with gensym := w.gensym + 1 })

/-! ## Thread bindings -/

def bindingsOf : Value → Except Failure (List (Nat × Value))
  | .map _ pairs => pairs.mapM fun (k, v) =>
    match k with
    | .var id _ => .ok (id, v)
    | other => .error (.classCast other "Var")
  | _ => .ok []

def checkDynamic (w : World) : List (Nat × Value) → Except Failure PUnit
  | [] => .ok ⟨⟩
  | (id, _) :: rest =>
    if (w.var id).dynamic then checkDynamic w rest
    else .error (.illegalState ("Can\x27t dynamically bind non-dynamic var: " ++ (w.var id).name.render))

def pushBindings (v : Value) : Run Value := do
  let bindings ← Run.ofExcept (bindingsOf v)
  Run.ofExcept (checkDynamic (← Run.world) bindings)
  Run.modify fun w =>
    { w with bindings := bindings.foldl (fun fr (id, v) => World.bindIn fr id v) [] :: w.bindings }
  return .nil

def popBindings : Run Value := do
  match (← Run.world).bindings with
  | [] => Run.raise (.illegalState "Pop without matching push")
  | _ :: rest =>
    Run.modify fun w => { w with bindings := rest }
    return .nil

/-! ## Protocols -/

def symbolName : Value → Except Failure String
  | .symbol s _ => .ok s.name
  | v => .error (.classCast v "Symbol")

def makeProtocol (name methods : Value) : Run Value := do
  let name ← Run.ofExcept (symbolName name)
  let methods ← Run.ofExcept ((← Run.itemsOf methods).mapM symbolName)
  Run.change fun w =>
    let name : Symbol := ⟨some w.current, name⟩
    (.protocol w.protocols.size name, { w with protocols := w.protocols.push { name, methods } })

def makeProtocolMethod : Value → Value → Run Value
  | .protocol p _, .symbol m _ => do return .protocolMethod (← Run.alloc 1) p m.name
  | other, _ => Run.raise (.classCast other "Protocol")

def extendOne (p : Nat) (type : ClassId) (method f : Value) : Run PUnit := do
  match method with
  | .keyword k =>
    let protocol := ((← Run.world).protocols[p]?).getD default
    if protocol.hasMethod k.name then
      Run.modify fun w => w.registerImpl p k.name type (.fn f)
    else
      Run.raise (.illegalArgument
        (k.name ++ " is not a method of protocol " ++ protocol.name.render))
  | other => Run.raise (.classCast other "Keyword")

def extendAll (p : Nat) (type : ClassId) : List (Value × Value) → Run PUnit
  | [] => return ⟨⟩
  | (method, f) :: rest => do
    extendOne p type method f
    extendAll p type rest

def classArg : Value → Except Failure ClassId
  | .type id _ => .ok id
  | .nil => .ok ClassId.nil
  | v => .error (.classCast v "Class")

def extend (type protocol impls : Value) : Run Value := do
  let type ← Run.ofExcept (classArg type)
  match protocol with
  | .protocol p _ =>
    match impls with
    | .map _ pairs =>
      extendAll p type pairs
      return .nil
    | other => Run.raise (.classCast other "IPersistentMap")
  | other => Run.raise (.classCast other "Protocol")

/-! ## Dispatch -/

def test (f : CoreFn) (p : Value → Bool) (args : List Value) : Run Value :=
  match args with
  | [x] => return .bool (p x)
  | args => Run.raise (arityFailure f args)

def unary (f : CoreFn) (op : Value → Run Value) (args : List Value) : Run Value :=
  match args with
  | [x] => op x
  | args => Run.raise (arityFailure f args)

def binary (f : CoreFn) (op : Value → Value → Run Value) (args : List Value) : Run Value :=
  match args with
  | [x, y] => op x y
  | args => Run.raise (arityFailure f args)

def result (x : Except Failure Value) : Run Value := Run.ofExcept x

def flag (x : Except Failure Bool) : Run Value := Run.ofExcept (x.map .bool)

/-- Keys and values of a map, in order; `nil` for an empty one. -/
def mapColumn (pick : Value × Value → Value) : Value → Run Value
  | .map _ [] => return .nil
  | .nil => return .nil
  | .map _ pairs => Run.newList (pairs.map pick)
  | v => Run.raise (.classCast v "IPersistentMap")

def callNumeric (f : CoreFn) (args : List Value) : Run Value :=
  match f with
  | .plus => result (foldNumbers Numbers.add (.long 0) args)
  | .times => result (foldNumbers Numbers.multiply (.long 1) args)
  | .minus => foldFromFirst f (.long 0) (fun x y => result (Numbers.minus x y)) args
  | .divide => foldFromFirst f (.long 1) (fun x y => Numbers.unlessFatal x y (Numbers.divide x y)) args
  | .lt => result (chain f Numbers.lt args)
  | .gt => result (chain f Numbers.gt args)
  | .lte => result (chain f Numbers.lte args)
  | .gte => result (chain f Numbers.gte args)
  | .numEq => result (chain f Numbers.numEquiv args)
  | .inc => unary f (fun x => result (Numbers.inc x)) args
  | .dec => unary f (fun x => result (Numbers.dec x)) args
  | .isZero => unary f (fun x => flag (Numbers.isZero x)) args
  | .isPos => unary f (fun x => flag (Numbers.isPos x)) args
  | .isNeg => unary f (fun x => flag (Numbers.isNeg x)) args
  | .quot => binary f (fun x y => result (Numbers.quotient x y)) args
  | .rem => binary f (fun x y => result (Numbers.remainder x y)) args
  | .mod => binary f (fun x y => Numbers.unlessFatal x y (Numbers.modulo x y)) args
  | .max => foldFromFirst f .nil (fun x y => result (prefer Numbers.gt x y)) args
  | .min => foldFromFirst f .nil (fun x y => result (prefer Numbers.lt x y)) args
  | .isEven => unary f (fun x => flag ((longArg x).map fun n => n.toInt % 2 == 0)) args
  | .isOdd => unary f (fun x => flag ((longArg x).map fun n => n.toInt % 2 != 0)) args
  | .toLong => unary f (fun x => result (toLong x)) args
  | .toDouble => unary f (fun x => result ((Numbers.Num.ofValue x).map fun n => .double n.toFloat)) args
  | _ => return .nil

def callCollection (f : CoreFn) (args : List Value) : Run Value :=
  match f with
  | .list => Run.newList args
  | .vector => Run.newVector args
  | .vec => unary f (fun x => do Run.newVector (← Run.itemsOf x)) args
  | .hashMap =>
    if args.length % 2 != 0 then Run.raise (.illegalArgument "No value supplied for key")
    else Run.newMap (Value.Entries.ofItems args)
  | .hashSet => Run.newSet args
  | .first => unary f Coll.first args
  | .second => unary f (fun x => do return ((← Run.itemsOf x)[1]?).getD .nil) args
  | .last => unary f (fun x => do return (← Run.itemsOf x).getLast?.getD .nil) args
  | .rest => unary f Coll.rest args
  | .next => unary f (fun x => do Coll.seq (← Coll.rest x)) args
  | .cons => binary f Coll.cons args
  | .conj => do
    checkArity f 1 none args
    Run.foldList Coll.conj (args.head?.getD .nil) args.tail
  | .count => unary f (fun x => result ((Coll.count x).map fun n => .long (Int64.ofNat n))) args
  | .nth => do
    checkArity f 2 (some 3) args
    match args with
    | coll :: i :: rest => result (do Coll.nth coll (← longArg i) rest.head?)
    | _ => return .nil
  | .get => do
    checkArity f 2 (some 3) args
    match args with
    | coll :: key :: rest => return Coll.get (← Run.world) coll key (rest.head?.getD .nil)
    | _ => return .nil
  | .assoc =>
    if args.length < 3 || args.length % 2 == 0 then Run.raise (arityFailure f args)
    else
      Run.foldList (fun acc (k, v) => Coll.assoc acc k v) (args.head?.getD .nil)
        (Value.Entries.ofItems args.tail)
  | .dissoc => do
    checkArity f 1 none args
    Run.foldList Coll.dissoc (args.head?.getD .nil) args.tail
  | .contains => binary f (fun coll key => return .bool (Coll.contains coll key)) args
  | .seq => unary f Coll.seq args
  | .isEmpty => unary f (fun x => flag ((Coll.count x).map (· == 0))) args
  | .keys => unary f (mapColumn (·.1)) args
  | .vals => unary f (mapColumn (·.2)) args
  | .concat => do Run.newList (← Run.forList Run.itemsOf args).flatten
  | .reverse => unary f (fun x => do Run.newList (← Run.itemsOf x).reverse) args
  | .range => do
    checkArity f 1 (some 3) args
    let (start, stop, step) ← Run.ofExcept (do
      match args with
      | [stop] => return (0, ← longArg stop, 1)
      | [start, stop] => return (← longArg start, ← longArg stop, 1)
      | [start, stop, step] => return (← longArg start, ← longArg stop, ← longArg step)
      | _ => return (0, 0, 1))
    Run.newList (← range start stop step)
  | .into => binary f (fun coll items => do Run.foldList Coll.conj coll (← Run.itemsOf items)) args
  | _ => return .nil

/-- Predicates, texts and names. -/
def callGeneral (f : CoreFn) (args : List Value) : Run Value :=
  match f with
  | .equals => do
    checkArity f 1 none args
    return .bool (allEqual args)
  | .notEquals => do
    checkArity .equals 1 none args
    return .bool (!allEqual args)
  | .identical => binary f (fun x y => return .bool (Value.identical x y)) args
  | .isNil => test f (·.isNil) args
  | .isSome => test f (!·.isNil) args
  | .not => test f (!·.isTruthy) args
  | .identity => unary f (fun x => return x) args
  | .isString => test f (fun | .str _ => true | _ => false) args
  | .isNumber => test f (fun | .long _ | .double _ => true | _ => false) args
  | .isKeyword => test f (fun | .keyword _ => true | _ => false) args
  | .isFn => test f (fun | .fn .. | .native _ | .protocolMethod .. => true | _ => false) args
  | .isVector => test f (fun | .vector .. => true | _ => false) args
  | .isMap => test f (fun | .map .. => true | _ => false) args
  | .hash => unary f (fun x => return .long x.hash.toInt64) args
  | .str => do return .str (String.join (args.map (← Run.world).display))
  | .prStr => do return .str (joined (← Run.world).render args)
  | .println => do print (joined (← Run.world).display args ++ "\n")
  | .print => do print (joined (← Run.world).display args)
  | .prn => do print (joined (← Run.world).render args ++ "\n")
  | .nameOf => unary f (fun x => result (nameOf x)) args
  | .keyword => unary f (fun x => return toKeyword x) args
  | .symbol => do
    checkArity f 1 (some 2) args
    result (toSymbol args)
  | .gensym => do
    checkArity f 0 (some 1) args
    let stem := (args.head?.map (← Run.world).display).getD "G__"
    return .symbol (Symbol.plain (stem ++ toString (← nextGensym))) none
  | .type => unary f (fun x => return .type x.classId x.className) args
  | .isInstance => binary f (fun type x => do
    match type with
    | .type id _ => return .bool ((← Run.world).isInstance x id)
    | other => Run.raise (.classCast other "Class")) args
  | _ => return .nil

/-- Exceptions, vars, namespaces and protocols. -/
def callSystem (f : CoreFn) (args : List Value) : Run Value :=
  match f with
  | .exInfo => do
    checkArity f 2 (some 3) args
    match args with
    | message :: data :: rest =>
      let text := (← Run.world).display message
      return .exception (← Run.alloc 1) ClassId.exceptionInfo (some text) data rest.head?
    | _ => return .nil
  | .exMessage => unary f (fun
    | .exception _ _ message _ _ => return (message.map Value.str).getD .nil
    | _ => return .nil) args
  | .exData => unary f (fun
    | .exception _ type _ data _ => return if type == ClassId.exceptionInfo then data else .nil
    | _ => return .nil) args
  | .deref => unary f (fun
    | .var id _ => do Run.ofExcept ((← Run.world).varGet id)
    | v => Run.raise (.classCast v "IDeref")) args
  | .metaOf => unary f (fun
    | .var id _ => do return .map (← Run.alloc 1) ((← Run.world).var id).infoEntries
    | _ => return .nil) args
  | .inNs => unary f (fun
    | .symbol s _ => do
      Run.modify fun w => { w.ensureNs s.name with current := s.name }
      return .nil
    | v => Run.raise (.classCast v "Symbol")) args
  | .pushThreadBindings => unary f pushBindings args
  | .popThreadBindings => do
    checkArity f 0 (some 0) args
    popBindings
  | .makeProtocol => binary f makeProtocol args
  | .protocolMethod => binary f makeProtocolMethod args
  | .extend =>
    match args with
    | [type, protocol, impls] => extend type protocol impls
    | args => Run.raise (arityFailure f args)
  | .satisfies => binary f (fun protocol x => do
    match protocol with
    | .protocol p _ =>
      let w ← Run.world
      return .bool (((w.protocols[p]?).getD default).extends? x.classId w.classes)
    | other => Run.raise (.classCast other "Protocol")) args
  | _ => return .nil

/-- The rows of arguments for a call over several collections, as many as the shortest has. -/
def rowsOf : Nat → List (List Value) → List (List Value)
  | 0, _ => []
  | n + 1, columns =>
    columns.filterMap (·.head?) :: rowsOf n (columns.map (·.tail))

def shortest : List (List Value) → Nat
  | [] => 0
  | [xs] => xs.length
  | xs :: rest => min xs.length (shortest rest)

def call (f : CoreFn) (args : List Value) : Run Reply :=
  match f with
  | .map => do
    checkArity f 2 none args
    let columns ← Run.forList Run.itemsOf args.tail
    return .map (args.head?.getD .nil) (rowsOf (shortest columns) columns)
  | .filter =>
    match args with
    | [p, coll] => do return .filter p (← Run.itemsOf coll)
    | args => Run.raise (arityFailure f args)
  | .reduce =>
    match args with
    | [g, coll] => do
      match ← Run.itemsOf coll with
      | [] => return .again g []
      | x :: rest => return .reduce g x rest
    | [g, init, coll] => do return .reduce g init (← Run.itemsOf coll)
    | args => Run.raise (arityFailure f args)
  | .apply => do
    checkArity f 2 none args
    let spread ← Run.itemsOf (args.getLast?.getD .nil)
    return .again (args.head?.getD .nil) (args.tail.dropLast ++ spread)
  | .plus | .minus | .times | .divide | .lt | .gt | .lte | .gte | .numEq | .inc | .dec | .isZero
  | .isPos | .isNeg | .quot | .rem | .mod | .max | .min | .isEven | .isOdd | .toLong | .toDouble => do
    return .value (← callNumeric f args)
  | .list | .vector | .vec | .hashMap | .hashSet | .first | .second | .last | .rest | .next | .cons
  | .conj | .count | .nth | .get | .assoc | .dissoc | .contains | .seq | .isEmpty | .keys | .vals
  | .concat | .reverse | .range | .into => do
    return .value (← callCollection f args)
  | .exInfo | .exMessage | .exData | .deref | .metaOf | .inNs | .pushThreadBindings
  | .popThreadBindings | .makeProtocol | .protocolMethod | .extend | .satisfies => do
    return .value (← callSystem f args)
  | f => do return .value (← callGeneral f args)

end LispMachine.Core

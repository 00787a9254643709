import LispMachine.Run
/-!
# Operations on collections

What the core functions and the host members on collections share.  Collections are never changed: an
operation builds a new one.
-/
namespace LispMachine.Coll

def count : Value → Except Failure Nat
  | .nil => .ok 0
  | .list _ items => .ok items.length
  | .vector _ items => .ok items.length
  | .map _ pairs => .ok pairs.length
  | .set _ items => .ok items.length
  | .str s => .ok s.length
  | v => .error (.unsupported ("count not supported on this type: " ++ v.className))

/-- The element at an index that is not negative. -/
def at? {α : Type} (items : List α) (i : Int64) : Option α :=
  if i.toInt < 0 then none else items[i.toInt.toNat]?

/-- Looks a key up.  Instances of declared types answer for the names of their fields. -/
def get (w : World) (coll key otherwise : Value) : Value :=
  match coll, key with
  | .map _ pairs, key => (Value.Entries.find? pairs key).getD otherwise
  | .set _ items, key => if Value.Members.contains items key then key else otherwise
  | .vector _ items, .long i => (at? items i).getD otherwise
  | .inst obj type _, .keyword k =>
    if k.ns.isNone then (w.fieldNamed? obj type k.name).getD otherwise else otherwise
  | _, _ => otherwise

def nth (coll : Value) (i : Int64) (otherwise : Option Value) : Except Failure Value := do
  let found ← match coll with
    | .nil => .ok none
    | .list _ items => .ok (at? items i)
    | .vector _ items => .ok (at? items i)
    | .str s => .ok ((at? s.toList i).map .char)
    | v => .error (.unsupported ("nth not supported on this type: " ++ v.className))
  match found.or otherwise with
  | some v => .ok v
  | none => .error (.outOfBounds i.toInt)

/-- Adds an item where the kind of collection takes it; `id` is the identity of the result. -/
def conjAs (id : Nat) (coll item : Value) : Except Failure Value :=
  match coll with
  | .nil => .ok (.list id [item])
  | .list _ items => .ok (.list id (item :: items))
  | .vector _ items => .ok (.vector id (items ++ [item]))
  | .set _ items => .ok (.set id (Value.Members.insert items item))
  | .map _ pairs =>
    match item with
    | .vector _ [k, v] => .ok (.map id (Value.Entries.insert pairs k v))
    | _ => .error (.illegalArgument "Vector arg to map conj must be a pair")
  | v => .error (.classCast v "IPersistentCollection")

def conj (coll item : Value) : Run Value := do Run.ofExcept (conjAs (← Run.alloc 1) coll item)

def assocAs (id : Nat) (coll key value : Value) : Except Failure Value :=
  match coll with
  | .nil => .ok (.map id [(key, value)])
  | .map _ pairs => .ok (.map id (Value.Entries.insert pairs key value))
  | .vector _ items =>
    match key with
    | .long i =>
      let n := i.toInt.toNat
      if i.toInt < 0 then .error (.outOfBounds i.toInt)
      else if n < items.length then .ok (.vector id (items.set n value))
      else if n == items.length then .ok (.vector id (items ++ [value]))
      else .error (.outOfBounds i.toInt)
    | _ => .error (.illegalArgument "Key must be integer")
  | v => .error (.classCast v "Associative")

def assoc (coll key value : Value) : Run Value := do
  Run.ofExcept (assocAs (← Run.alloc 1) coll key value)

def dissocAs (id : Nat) (coll key : Value) : Except Failure Value :=
  match coll with
  | .nil => .ok .nil
  | .map _ pairs => .ok (.map id (Value.Entries.erase pairs key))
  | v => .error (.classCast v "IPersistentMap")

def dissoc (coll key : Value) : Run Value := do Run.ofExcept (dissocAs (← Run.alloc 1) coll key)

def contains (coll key : Value) : Bool :=
  match coll, key with
  | .map _ pairs, key => (Value.Entries.find? pairs key).isSome
  | .set _ items, key => Value.Members.contains items key
  | .vector _ items, .long i => (at? items i).isSome
  | _, _ => false

def first (coll : Value) : Run Value := do return (← Run.itemsOf coll).head?.getD .nil

def rest (coll : Value) : Run Value := do Run.newList ((← Run.itemsOf coll).drop 1)

def cons (item coll : Value) : Run Value := do Run.newList (item :: (← Run.itemsOf coll))

/-- The elements as a list, or `nil` if there are none. -/
def seq (coll : Value) : Run Value := do
  match ← Run.itemsOf coll with
  | [] => return .nil
  | items => Run.newList items

end LispMachine.Coll

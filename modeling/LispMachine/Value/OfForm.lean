import LispMachine.Value.Collection
/-!
# Forms and values

A form read from a text is also data: `ofForm` gives the value it denotes when it is not evaluated,
and `toForm?` turns data back into a form.  Places and other metadata stay on symbols and are lost on
collections.
-/
namespace LispMachine.Value

mutual

/-- The value of a form as data; the state is the next free identity. -/
def ofForm : Form → StateM Nat Value
  | .nil => return .nil
  | .bool b => return .bool b
  | .long n => return .long n
  | .double d => return .double d
  | .char c => return .char c
  | .str s => return .str s
  | .keyword k => return .keyword k
  | .symbol s info => return .symbol s info
  | .list items _ => do
    let items ← ofForms items
    return .list (← fresh) items
  | .vector items _ => do
    let items ← ofForms items
    return .vector (← fresh) items
  | .map pairs _ => do
    let pairs ← ofPairs pairs
    return .map (← fresh) (Entries.ofList pairs)
  | .set items _ => do
    let items ← ofForms items
    return .set (← fresh) (Members.ofList items)
where
  fresh : StateM Nat Nat := modifyGet fun n => (n, n + 1)

def ofForms : List Form → StateM Nat (List Value)
  | [] => return []
  | f :: fs => do
    let v ← ofForm f
    return v :: (← ofForms fs)

def ofPairs : List (Form × Form) → StateM Nat (List (Value × Value))
  | [] => return []
  | (k, v) :: rest => do
    let k ← ofForm k
    let v ← ofForm v
    return (k, v) :: (← ofPairs rest)

end

mutual

/-- The form that a piece of data is written as; a value that is no data is returned as the
obstacle. -/
def toForm? : Value → Except Value Form
  | .nil => .ok .nil
  | .bool b => .ok (.bool b)
  | .long n => .ok (.long n)
  | .double d => .ok (.double d)
  | .char c => .ok (.char c)
  | .str s => .ok (.str s)
  | .keyword k => .ok (.keyword k)
  | .symbol s info => .ok (.symbol s info)
  | .list _ items => do return .list (← toForms? items) none
  | .vector _ items => do return .vector (← toForms? items) none
  | .set _ items => do return .set (← toForms? items) none
  | .map _ pairs => do return .map (← toPairs? pairs) none
  | other => .error other

def toForms? : List Value → Except Value (List Form)
  | [] => .ok []
  | v :: vs => do
    let f ← toForm? v
    return f :: (← toForms? vs)

def toPairs? : List (Value × Value) → Except Value (List (Form × Form))
  | [] => .ok []
  | (k, v) :: rest => do
    let k ← toForm? k
    let v ← toForm? v
    return (k, v) :: (← toPairs? rest)

end

end LispMachine.Value

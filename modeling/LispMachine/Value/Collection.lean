import LispMachine.Value.Basic
/-!
# Contents of collections

Maps and sets as lists of members without repeated keys.  Putting in an equal key keeps the old key
and its position and replaces only the value; putting in an equal member of a set changes nothing.
-/
namespace LispMachine.Value

/-! ## Entries of a map -/

abbrev Entries := List (Value × Value)

namespace Entries

def find? : Entries → Value → Option Value
  | [], _ => none
  | (k, v) :: rest, key => if equiv key k then some v else find? rest key

def insert : Entries → Value → Value → Entries
  | [], key, value => [(key, value)]
  | (k, v) :: rest, key, value =>
    if equiv key k then (k, value) :: rest else (k, v) :: insert rest key value

/-- The entries without the one under the key; the others keep their order. -/
def erase : Entries → Value → Entries
  | [], _ => []
  | (k, v) :: rest, key => if equiv key k then rest else (k, v) :: erase rest key

/-- The entries put in one after the other. -/
def ofList (pairs : List (Value × Value)) : Entries :=
  pairs.foldl (fun m (k, v) => m.insert k v) []

/-- Keys and values that alternate; a key without a value is dropped. -/
def ofItems : List Value → List (Value × Value)
  | k :: v :: rest => (k, v) :: ofItems rest
  | _ => []

end Entries

/-! ## Members of a set -/

abbrev Members := List Value

namespace Members

def contains (xs : Members) (x : Value) : Bool := xs.any (fun y => equiv x y)

def insert (xs : Members) (x : Value) : Members := if contains xs x then xs else xs ++ [x]

def ofList (items : List Value) : Members := items.foldl insert []

end Members

/-! ## Elements -/

/-- How many elements of the value are themselves built when it is taken apart. -/
def entryCount : Value → Nat
  | .map _ pairs => pairs.length
  | _ => 0

/-- Entries as vectors of key and value, whose identities count up from `id`. -/
def entryVectors : Nat → List (Value × Value) → List Value
  | _, [] => []
  | id, (k, v) :: rest => .vector id [k, v] :: entryVectors (id + 1) rest

/-- The elements of a value that has elements; `id` is the first identity for the entries of a
map. -/
def items? (id : Nat) : Value → Option (List Value)
  | .nil => some []
  | .list _ items => some items
  | .vector _ items => some items
  | .set _ items => some items
  | .map _ pairs => some (entryVectors id pairs)
  | .str s => some (s.toList.map .char)
  | _ => none

end LispMachine.Value

import LispMachine.Symbol
/-!
# Forms

A form is what a text reads as: an atom, or a list, vector, map or set of forms.  Symbols and
collections may carry metadata, namely where they were written and further entries; equality and
hashing pay no attention to it.

A list equals a vector of equal items.  Sets and maps are equal when they have the same number of
members and every member of the first is found in the second, in any order.
-/
namespace LispMachine

/-- What is attached to a form: its place in the text, and entries in the order they were given. -/
structure Meta (α : Type) where
  line : Option Nat := none
  column : Option Nat := none
  entries : List (α × α) := []

inductive Form where
  | nil
  | bool (b : Bool)
  | long (n : Int64)
  | double (d : Float)
  | char (c : Char)
  | str (s : String)
  | keyword (k : Keyword)
  | symbol (s : Symbol) (info : Option (Meta Form))
  | list (items : List Form) (info : Option (Meta Form))
  | vector (items : List Form) (info : Option (Meta Form))
  | map (pairs : List (Form × Form)) (info : Option (Meta Form))
  | set (items : List Form) (info : Option (Meta Form))
  deriving Inhabited

namespace Form

abbrev Info := Meta Form

/-! ## Building forms without metadata -/

def sym (text : String) : Form := .symbol (Symbol.parse text) none

def kw (text : String) : Form := .keyword (Keyword.parse text)

def ofItems (items : List Form) : Form := .list items none

def ofVector (items : List Form) : Form := .vector items none

def ofPairs (pairs : List (Form × Form)) : Form := .map pairs none

/-! ## Equality and hashing -/

mutual

/-- Equality of forms, blind to metadata. -/
def beq : Form → Form → Bool
  | .nil, .nil => true
  | .bool a, .bool b => a == b
  | .long a, .long b => a == b
  | .double a, .double b => a == b
  | .char a, .char b => a == b
  | .str a, .str b => a == b
  | .keyword a, .keyword b => a == b
  | .symbol a _, .symbol b _ => a == b
  | .list a _, .list b _ => sameItems a b
  | .list a _, .vector b _ => sameItems a b
  | .vector a _, .list b _ => sameItems a b
  | .vector a _, .vector b _ => sameItems a b
  | .set a _, .set b _ => a.length == b.length && allAmong a b
  | .map a _, .map b _ => a.length == b.length && pairsAmong a b
  | _, _ => false

def sameItems : List Form → List Form → Bool
  | [], [] => true
  | x :: xs, y :: ys => beq x y && sameItems xs ys
  | _, _ => false

/-- Every member of the first list equals some member of the second. -/
def allAmong : List Form → List Form → Bool
  | [], _ => true
  | x :: xs, ys => ys.any (fun y => beq x y) && allAmong xs ys

def pairsAmong : List (Form × Form) → List (Form × Form) → Bool
  | [], _ => true
  | (k, v) :: rest, ys => ys.any (fun y => beq k y.1 && beq v y.2) && pairsAmong rest ys

end

instance : BEq Form := ⟨beq⟩

mutual

def hash : Form → Int32
  | .nil => 0
  | .bool b => Hash.ofBool b
  | .long n => Hash.ofLong n
  | .double d => Hash.ofDouble d
  | .char c => Hash.ofChar c
  | .str s => Hash.ofString s
  | .keyword k => k.hash
  | .symbol s _ => s.hash
  | .list items _ => Hash.ordered (hashes items)
  | .vector items _ => Hash.ordered (hashes items)
  | .set items _ => Hash.unordered (hashes items)
  | .map pairs _ => Hash.unordered (pairHashes pairs)

def hashes : List Form → List Int32
  | [] => []
  | x :: xs => hash x :: hashes xs

def pairHashes : List (Form × Form) → List Int32
  | [] => []
  | (k, v) :: rest => Hash.ordered [hash k, hash v] :: pairHashes rest

end

/-! ## Questions about forms -/

/-- Everything but `nil` and `false` counts as true. -/
def isTruthy : Form → Bool
  | .nil => false
  | .bool false => false
  | _ => true

def isNil : Form → Bool
  | .nil => true
  | _ => false

def isCollection : Form → Bool
  | .list .. | .vector .. | .map .. | .set .. => true
  | _ => false

def isSymbol : Form → Bool
  | .symbol .. => true
  | _ => false

def symbol? : Form → Option Symbol
  | .symbol s _ => some s
  | _ => none

def list? : Form → Option (List Form)
  | .list items _ => some items
  | _ => none

def vector? : Form → Option (List Form)
  | .vector items _ => some items
  | _ => none

/-- A list whose head is the unqualified symbol of that name. -/
def isCallTo (f : Form) (name : String) : Bool :=
  match f with
  | .list (.symbol s _ :: _) _ => s.isPlain name
  | _ => false

def typeName : Form → String
  | .nil => "nil"
  | .bool _ => "Boolean"
  | .long _ => "Long"
  | .double _ => "Double"
  | .char _ => "Character"
  | .str _ => "String"
  | .keyword _ => "Keyword"
  | .symbol .. => "Symbol"
  | .list .. => "PersistentList"
  | .vector .. => "PersistentVector"
  | .map .. => "PersistentMap"
  | .set .. => "PersistentSet"

/-! ## Metadata -/

def info? : Form → Option Info
  | .symbol _ i | .list _ i | .vector _ i | .set _ i => i
  | .map _ i => i
  | _ => none

/-- Replaces the metadata; forms that cannot carry any are left alone. -/
def withInfo (f : Form) (i : Option Info) : Form :=
  match f with
  | .symbol s _ => .symbol s i
  | .list xs _ => .list xs i
  | .vector xs _ => .vector xs i
  | .map ps _ => .map ps i
  | .set xs _ => .set xs i
  | other => other

def line? (f : Form) : Option Nat := f.info?.bind (·.line)

def column? (f : Form) : Option Nat := f.info?.bind (·.column)

end Form

namespace Meta

def ofPlace (line column : Nat) : Meta Form := { line := some line, column := some column }

def find? (m : Meta Form) (name : String) : Option Form :=
  (m.entries.find? fun e =>
    match e.1 with
    | .keyword k => k.symbol.isPlain name
    | _ => false).map (·.2)

/-- Whether the entry under a keyword is present and counts as true. -/
def flag (m : Meta Form) (name : String) : Bool := ((m.find? name).map Form.isTruthy).getD false

def tag? (m : Meta Form) : Option Symbol := (m.find? "tag").bind Form.symbol?

/-- Replaces the value of an entry in place, or appends a new entry. -/
def insertEntry (key value : Form) : List (Form × Form) → List (Form × Form)
  | [] => [(key, value)]
  | (k, v) :: rest =>
    if k == key then (k, value) :: rest else (k, v) :: insertEntry key value rest

def insert (m : Meta Form) (key value : Form) : Meta Form :=
  { m with entries := insertEntry key value m.entries }

/-- The entries of `other` win, and so does its place if it has one. -/
def merge (m other : Meta Form) : Meta Form :=
  let m := other.entries.foldl (fun m e => m.insert e.1 e.2) m
  if other.line.isSome then { m with line := other.line, column := other.column } else m

/-- Places are 32-bit words. -/
def placeOf (n : Int64) : Nat := n.toUInt64.toUInt32.toNat

/-- Metadata from the entries of a map; whole numbers under `:line` and `:column` are the place. -/
def ofPairs (pairs : List (Form × Form)) : Meta Form :=
  pairs.foldl (fun m (k, v) =>
    match k, v with
    | .keyword kw, .long n =>
      if kw.symbol.isPlain "line" then { m with line := some (placeOf n) }
      else if kw.symbol.isPlain "column" then { m with column := some (placeOf n) }
      else m.insert k v
    | _, _ => m.insert k v) {}

end Meta

def Form.tag? (f : Form) : Option Symbol := f.info?.bind Meta.tag?

def Form.flag (f : Form) (name : String) : Bool := (f.info?.map (·.flag name)).getD false

end LispMachine

import LispMachine.Form.Basic
import LispMachine.Class.Id
import LispMachine.Value.Native
/-!
# Values

A value is what a program computes with.  Atoms and collections hold their contents.  Functions,
instances of declared types and text builders have a state that changes, so a value only names the
place where that state is kept.  Collections and exceptions carry an identity as well: two of them
are identical only if they were built by the same act.

`equiv` is the equality programs see: it compares atoms and collections by content and everything
else by identity.  Maps and sets keep their members in the order in which they were first put in,
and hold no two equal keys.
-/
namespace LispMachine

inductive Value where
  | nil
  | bool (b : Bool)
  | long (n : Int64)
  | double (d : Float)
  | char (c : Char)
  | str (s : String)
  | keyword (k : Keyword)
  | symbol (s : Symbol) (info : Option Form.Info)
  | list (id : Nat) (items : List Value)
  | vector (id : Nat) (items : List Value)
  | map (id : Nat) (pairs : List (Value × Value))
  | set (id : Nat) (items : List Value)
  /-- A closure: the place of its captured fields, its loaded unit and that unit's name. -/
  | fn (fields : Nat) (unit : Nat) (name : String)
  | native (n : Native)
  | var (id : Nat) (name : Symbol)
  | type (id : ClassId) (name : String)
  | protocol (id : Nat) (name : Symbol)
  | protocolMethod (id : Nat) (protocol : Nat) (name : String)
  /-- An instance of a declared type: the place of its fields, its class and that class's name. -/
  | inst (fields : Nat) (type : ClassId) (name : String)
  /-- A text builder: the place of its text. -/
  | builder (id : Nat)
  | exception (id : Nat) (type : ClassId) (message : Option String) (data : Value)
      (cause : Option Value)
  deriving Inhabited

namespace Value

def kw (text : String) : Value := .keyword (Keyword.parse text)

/-- Everything but `nil` and `false` counts as true. -/
def isTruthy : Value → Bool
  | .nil => false
  | .bool false => false
  | _ => true

def isNil : Value → Bool
  | .nil => true
  | _ => false

def classId : Value → ClassId
  | .nil => ClassId.nil
  | .bool _ => ClassId.boolean
  | .long _ => ClassId.long
  | .double _ => ClassId.double
  | .char _ => ClassId.character
  | .str _ => ClassId.string
  | .keyword _ => ClassId.keyword
  | .symbol .. => ClassId.symbol
  | .list .. => ClassId.list
  | .vector .. => ClassId.vector
  | .map .. => ClassId.map
  | .set .. => ClassId.set
  | .fn .. => ClassId.fn
  | .native _ => ClassId.nativeFn
  | .var .. => ClassId.var
  | .type .. => ClassId.class'
  | .protocol .. => ClassId.protocol
  | .protocolMethod .. => ClassId.protocolMethod
  | .inst _ id _ => id
  | .builder _ => ClassId.stringBuilder
  | .exception _ id _ _ _ => id

def className : Value → String
  | .inst _ _ name => name
  | v => (ClassId.name? v.classId).getD "Object"

def long? : Value → Option Int64
  | .long n => some n
  | _ => none

/-! ## Equality and hashing -/

/-- Identity: atoms by content, doubles by their bits, all else by the act that built them. -/
def identical : Value → Value → Bool
  | .nil, .nil => true
  | .bool a, .bool b => a == b
  | .long a, .long b => a == b
  | .double a, .double b => a.toBits == b.toBits
  | .char a, .char b => a == b
  | .str a, .str b => a == b
  | .keyword a, .keyword b => a == b
  | .symbol a _, .symbol b _ => a == b
  | .list a _, .list b _ => a == b
  | .vector a _, .vector b _ => a == b
  | .map a _, .map b _ => a == b
  | .set a _, .set b _ => a == b
  | .fn a _ _, .fn b _ _ => a == b
  | .native a, .native b => a == b
  | .var a _, .var b _ => a == b
  | .type a _, .type b _ => a == b
  | .protocol a _, .protocol b _ => a == b
  | .protocolMethod a _ _, .protocolMethod b _ _ => a == b
  | .inst a _ _, .inst b _ _ => a == b
  | .builder a, .builder b => a == b
  | .exception a _ _ _ _, .exception b _ _ _ _ => a == b
  | _, _ => false

mutual

/-- The equality that programs see. -/
def equiv : Value → Value → Bool
  | .double a, .double b => a == b
  | .list _ a, .list _ b => sameItems a b
  | .list _ a, .vector _ b => sameItems a b
  | .vector _ a, .list _ b => sameItems a b
  | .vector _ a, .vector _ b => sameItems a b
  | .map _ a, .map _ b => a.length == b.length && pairsAmong a b
  | .set _ a, .set _ b => a.length == b.length && allAmong a b
  | a, b => identical a b

def sameItems : List Value → List Value → Bool
  | [], [] => true
  | x :: xs, y :: ys => equiv x y && sameItems xs ys
  | _, _ => false

/-- Every member of the first list equals some member of the second. -/
def allAmong : List Value → List Value → Bool
  | [], _ => true
  | x :: xs, ys => ys.any (fun y => equiv x y) && allAmong xs ys

def pairsAmong : List (Value × Value) → List (Value × Value) → Bool
  | [], _ => true
  | (k, v) :: rest, ys => ys.any (fun y => equiv k y.1 && equiv v y.2) && pairsAmong rest ys

end

mutual

def hash : Value → Int32
  | .nil => 0
  | .bool b => Hash.ofBool b
  | .long n => Hash.ofLong n
  | .double d => Hash.ofDouble d
  | .char c => Hash.ofChar c
  | .str s => Hash.ofString s
  | .keyword k => k.hash
  | .symbol s _ => s.hash
  | .list _ items => Hash.ordered (hashes items)
  | .vector _ items => Hash.ordered (hashes items)
  | .set _ items => Hash.unordered (hashes items)
  | .map _ pairs => Hash.unordered (pairHashes pairs)
  | .type id _ => Int32.ofNat id
  | .native n => Hash.ofString n.name
  | .fn id _ _ => Int32.ofNat id
  | .var id _ => Int32.ofNat id
  | .protocol id _ => Int32.ofNat id
  | .protocolMethod id _ _ => Int32.ofNat id
  | .inst id _ _ => Int32.ofNat id
  | .builder id => Int32.ofNat id
  | .exception id _ _ _ _ => Int32.ofNat id

def hashes : List Value → List Int32
  | [] => []
  | x :: xs => hash x :: hashes xs

def pairHashes : List (Value × Value) → List Int32
  | [] => []
  | (k, v) :: rest => Hash.ordered [hash k, hash v] :: pairHashes rest

end

end Value

end LispMachine

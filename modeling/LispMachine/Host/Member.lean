import LispMachine.Code.Unit
import LispMachine.Class.Id
/-!
# Host members

The members of the built-in classes that compiled code may call directly.  A member has a full
signature, by which an overload is chosen, and an operation, by which it is run.
-/
namespace LispMachine

/-- The representation on which an overload of an arithmetic member works. -/
inductive Width where
  | long
  | double
  | boxed
  deriving DecidableEq, Repr

inductive Arith where
  | add
  | minus
  | multiply
  deriving DecidableEq, Repr

inductive Comparison where
  | lt
  | lte
  | gt
  | gte
  | equiv
  deriving DecidableEq, Repr

inductive SignTest where
  | zero
  | pos
  | neg
  deriving DecidableEq, Repr

inductive HostOp where
  | arith (op : Arith) (w : Width)
  | compare (op : Comparison) (w : Width)
  | sign (op : SignTest) (w : Width)
  | divideDouble | divideBoxed | quotientLong | quotientBoxed | remainderLong | remainderBoxed
  | inc (w : Width)
  | dec (w : Width)
  | count | nth | get | intCastLong | intCast | longCastLong | longCast | doubleCastDouble
  | doubleCast | booleanCast
  | equiv (w : Width)
  | identical | hasheq
  | pi | e | absLong | absDouble | maxLong | maxDouble | minLong | minDouble | sqrt | pow | floor
  | longMax | longMin | parseLong | longValueOf | intMax | intMin | doubleMax | parseDouble | isNaN
  | currentTimeMillis | nanoTime
  | toText | hashCode | equals
  | valueOf | length | isEmpty | toUpperCase | toLowerCase | trim | substringFrom | substring
  | charAt | indexOf | startsWith | endsWith | contains | concat
  | newBuilder | newBuilderOf | append | builderLength
  | newException (type : ClassId)
  | newExceptionWith (type : ClassId)
  | newExceptionInfo | getMessage | getData
  deriving DecidableEq, Repr

structure HostMember where
  name : String
  kind : HostKind
  params : List HostType
  ret : HostType
  op : HostOp
  deriving DecidableEq, Repr

def HostMember.render (m : HostMember) : String := m.name ++ renderSignature m.params m.ret

end LispMachine

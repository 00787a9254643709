/-!
# Primitive kinds

A value on the operand stack or in a local slot may be held unboxed as one of five primitive kinds.
-/
namespace LispMachine

inductive Prim where
  | long
  | double
  | int
  | float
  | bool
  deriving DecidableEq, Repr

namespace Prim

def name : Prim → String
  | .long => "long"
  | .double => "double"
  | .int => "int"
  | .float => "float"
  | .bool => "boolean"

def ofName? : String → Option Prim
  | "long" => some .long
  | "double" => some .double
  | "int" => some .int
  | "float" => some .float
  | "boolean" => some .bool
  | _ => none

def boxedClass : Prim → String
  | .long => "Long"
  | .double => "Double"
  | .int => "Integer"
  | .float => "Float"
  | .bool => "Boolean"

def isIntegral : Prim → Bool
  | .long | .int => true
  | _ => false

end Prim

end LispMachine

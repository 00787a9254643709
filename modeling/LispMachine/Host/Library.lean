import LispMachine.Host.Member
/-!
# The host library

The members of every built-in class, in the order in which overloads are tried.
-/
namespace LispMachine.Host

def longType : HostType := .prim .long
def doubleType : HostType := .prim .double
def intType : HostType := .prim .int
def boolType : HostType := .prim .bool
def stringType : HostType := .named "String"

def static (name : String) (params : List HostType) (ret : HostType) (op : HostOp) : HostMember :=
  ⟨name, .staticMethod, params, ret, op⟩

def method (name : String) (params : List HostType) (ret : HostType) (op : HostOp) : HostMember :=
  ⟨name, .method, params, ret, op⟩

def field (name : String) (type : HostType) (op : HostOp) : HostMember :=
  ⟨name, .staticField, [], type, op⟩

def ctor (params : List HostType) (type : HostType) (op : HostOp) : HostMember :=
  ⟨"new", .constructor, params, type, op⟩

def widthType : Width → HostType
  | .long => longType
  | .double => doubleType
  | .boxed => .object

def widths : List Width := [.long, .double, .boxed]

def arithMembers (name : String) (op : Arith) : List HostMember :=
  widths.map fun w => static name [widthType w, widthType w] (widthType w) (.arith op w)

def compareMembers (name : String) (op : Comparison) : List HostMember :=
  widths.map fun w => static name [widthType w, widthType w] boolType (.compare op w)

def signMembers (name : String) (op : SignTest) : List HostMember :=
  widths.map fun w => static name [widthType w] boolType (.sign op w)

def numbersMembers : List HostMember :=
  arithMembers "add" .add ++ arithMembers "minus" .minus ++ arithMembers "multiply" .multiply ++
  compareMembers "lt" .lt ++ compareMembers "lte" .lte ++ compareMembers "gt" .gt ++
  compareMembers "gte" .gte ++ compareMembers "equiv" .equiv ++
  signMembers "isZero" .zero ++ signMembers "isPos" .pos ++ signMembers "isNeg" .neg ++
  [static "divide" [doubleType, doubleType] doubleType .divideDouble,
    static "divide" [.object, .object] .object .divideBoxed,
    static "quotient" [longType, longType] longType .quotientLong,
    static "quotient" [.object, .object] .object .quotientBoxed,
    static "remainder" [longType, longType] longType .remainderLong,
    static "remainder" [.object, .object] .object .remainderBoxed] ++
  widths.map (fun w => static "inc" [widthType w] (widthType w) (.inc w)) ++
  widths.map (fun w => static "dec" [widthType w] (widthType w) (.dec w))

def rtMembers : List HostMember := [
  static "count" [.object] intType .count,
  static "nth" [.object, intType] .object .nth,
  static "get" [.object, .object] .object .get,
  static "intCast" [longType] intType .intCastLong,
  static "intCast" [.object] intType .intCast,
  static "longCast" [longType] longType .longCastLong,
  static "longCast" [.object] longType .longCast,
  static "doubleCast" [doubleType] doubleType .doubleCastDouble,
  static "doubleCast" [.object] doubleType .doubleCast,
  static "booleanCast" [.object] boolType .booleanCast]

def utilMembers : List HostMember :=
  widths.map (fun w => static "equiv" [widthType w, widthType w] boolType (.equiv w)) ++
  [static "identical" [.object, .object] boolType .identical,
    static "hasheq" [.object] intType .hasheq]

def mathMembers : List HostMember := [
  field "PI" doubleType .pi,
  field "E" doubleType .e,
  static "abs" [longType] longType .absLong,
  static "abs" [doubleType] doubleType .absDouble,
  static "max" [longType, longType] longType .maxLong,
  static "max" [doubleType, doubleType] doubleType .maxDouble,
  static "min" [longType, longType] longType .minLong,
  static "min" [doubleType, doubleType] doubleType .minDouble,
  static "sqrt" [doubleType] doubleType .sqrt,
  static "pow" [doubleType, doubleType] doubleType .pow,
  static "floor" [doubleType] doubleType .floor]

def longMembers : List HostMember := [
  field "MAX_VALUE" longType .longMax,
  field "MIN_VALUE" longType .longMin,
  static "parseLong" [stringType] longType .parseLong,
  static "valueOf" [longType] (.named "Long") .longValueOf]

def integerMembers : List HostMember := [
  field "MAX_VALUE" intType .intMax,
  field "MIN_VALUE" intType .intMin]

def doubleMembers : List HostMember := [
  field "MAX_VALUE" doubleType .doubleMax,
  static "parseDouble" [stringType] doubleType .parseDouble,
  static "isNaN" [doubleType] boolType .isNaN]

def systemMembers : List HostMember := [
  static "currentTimeMillis" [] longType .currentTimeMillis,
  static "nanoTime" [] longType .nanoTime]

def objectMembers : List HostMember := [
  method "toString" [] stringType .toText,
  method "hashCode" [] intType .hashCode,
  method "equals" [.object] boolType .equals]

def stringMembers : List HostMember := [
  static "valueOf" [.object] stringType .valueOf,
  method "length" [] intType .length,
  method "isEmpty" [] boolType .isEmpty,
  method "toUpperCase" [] stringType .toUpperCase,
  method "toLowerCase" [] stringType .toLowerCase,
  method "trim" [] stringType .trim,
  method "substring" [intType] stringType .substringFrom,
  method "substring" [intType, intType] stringType .substring,
  method "charAt" [intType] (.named "Character") .charAt,
  method "indexOf" [stringType] intType .indexOf,
  method "startsWith" [stringType] boolType .startsWith,
  method "endsWith" [stringType] boolType .endsWith,
  method "contains" [stringType] boolType .contains,
  method "concat" [stringType] stringType .concat]

def builderMembers : List HostMember :=
  let type : HostType := .named "StringBuilder"
  [ctor [] type .newBuilder,
    ctor [stringType] type .newBuilderOf,
    method "append" [.object] type .append,
    method "length" [] intType .builderLength,
    method "toString" [] stringType .toText]

def plainExceptions : List ClassId := [
  ClassId.throwable, ClassId.exception, ClassId.runtimeException, ClassId.illegalArgument,
  ClassId.illegalState, ClassId.arithmetic, ClassId.unsupported]

def exceptionMembers (id : ClassId) : List HostMember :=
  let type : HostType := .named ((ClassId.name? id).getD "")
  (if plainExceptions.contains id then
    [ctor [] type (.newException id), ctor [stringType] type (.newExceptionWith id)]
  else if id == ClassId.exceptionInfo then
    [ctor [stringType, .object] type .newExceptionInfo, method "getData" [] .object .getData]
  else []) ++
  (if id == ClassId.throwable then [method "getMessage" [] stringType .getMessage] else [])

def membersOf (id : ClassId) : List HostMember :=
  if id == ClassId.object then objectMembers
  else if id == ClassId.numbers then numbersMembers
  else if id == ClassId.rt then rtMembers
  else if id == ClassId.util then utilMembers
  else if id == ClassId.math then mathMembers
  else if id == ClassId.long then longMembers
  else if id == ClassId.integer then integerMembers
  else if id == ClassId.double then doubleMembers
  else if id == ClassId.system then systemMembers
  else if id == ClassId.string then stringMembers
  else if id == ClassId.stringBuilder then builderMembers
  else if ClassId.throwable ≤ id && id ≤ ClassId.arity then exceptionMembers id
  else []

end LispMachine.Host

/-!
# Numbers of the built-in classes

Every class has a number.  The built-in classes have fixed ones, so a value can say its class
without looking anything up; types declared by programs are numbered from `firstUser` on.
-/
namespace LispMachine

abbrev ClassId := Nat

namespace ClassId

def object : ClassId := 1
def nil : ClassId := 2
def boolean : ClassId := 3
def number : ClassId := 4
def long : ClassId := 5
def double : ClassId := 6
def character : ClassId := 7
def string : ClassId := 8
def keyword : ClassId := 9
def symbol : ClassId := 10
def list : ClassId := 11
def vector : ClassId := 12
def map : ClassId := 13
def set : ClassId := 14
def callable : ClassId := 15
def fn : ClassId := 16
def nativeFn : ClassId := 17
def var : ClassId := 18
def class' : ClassId := 19
def protocol : ClassId := 20
def protocolMethod : ClassId := 21
def throwable : ClassId := 22
def exception : ClassId := 23
def runtimeException : ClassId := 24
def illegalArgument : ClassId := 25
def illegalState : ClassId := 26
def arithmetic : ClassId := 27
def classCast : ClassId := 28
def unsupported : ClassId := 29
def indexOutOfBounds : ClassId := 30
def nullPointer : ClassId := 31
def exceptionInfo : ClassId := 32
def arity : ClassId := 33
def math : ClassId := 34
def numbers : ClassId := 35
def rt : ClassId := 36
def util : ClassId := 37
def stringBuilder : ClassId := 38
def system : ClassId := 39
def integer : ClassId := 40
def sequential : ClassId := 41
def error : ClassId := 42
def stackOverflow : ClassId := 43

/-- The first number given to a declared type. -/
def firstUser : ClassId := 64

/-- Number, name and direct supertypes of every built-in class. -/
def builtins : List (ClassId × String × List ClassId) := [
  (object, "Object", []),
  (nil, "nil", []),
  (boolean, "Boolean", [object]),
  (number, "Number", [object]),
  (long, "Long", [number]),
  (double, "Double", [number]),
  (character, "Character", [object]),
  (string, "String", [object]),
  (keyword, "Keyword", [callable]),
  (symbol, "Symbol", [object]),
  (list, "PersistentList", [sequential]),
  (vector, "PersistentVector", [sequential, callable]),
  (map, "PersistentMap", [callable]),
  (set, "PersistentSet", [callable]),
  (callable, "IFn", [object]),
  (fn, "Fn", [callable]),
  (nativeFn, "NativeFn", [callable]),
  (var, "Var", [callable]),
  (class', "Class", [object]),
  (protocol, "Protocol", [object]),
  (protocolMethod, "ProtocolMethod", [callable]),
  (throwable, "Throwable", [object]),
  (exception, "Exception", [throwable]),
  (runtimeException, "RuntimeException", [exception]),
  (illegalArgument, "IllegalArgumentException", [runtimeException]),
  (illegalState, "IllegalStateException", [runtimeException]),
  (arithmetic, "ArithmeticException", [runtimeException]),
  (classCast, "ClassCastException", [runtimeException]),
  (unsupported, "UnsupportedOperationException", [runtimeException]),
  (indexOutOfBounds, "IndexOutOfBoundsException", [runtimeException]),
  (nullPointer, "NullPointerException", [runtimeException]),
  (exceptionInfo, "ExceptionInfo", [runtimeException]),
  (arity, "ArityException", [illegalArgument]),
  (math, "Math", [object]),
  (numbers, "Numbers", [object]),
  (rt, "RT", [object]),
  (util, "Util", [object]),
  (stringBuilder, "StringBuilder", [object]),
  (system, "System", [object]),
  (integer, "Integer", [number]),
  (sequential, "Sequential", [object]),
  (error, "Error", [throwable]),
  (stackOverflow, "StackOverflowError", [error])]

def name? (id : ClassId) : Option String := (builtins.lookup id).map (·.1)

end ClassId

end LispMachine

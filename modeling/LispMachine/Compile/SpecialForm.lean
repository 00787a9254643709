import LispMachine.Symbol
/-!
# Special forms

The names that stand neither for functions nor for expanders.  Their meaning is fixed, and no var or
local can take it from them at the head of a list.
-/
namespace LispMachine

inductive SpecialForm where
  | define | cond | seq | bind | loop | recur | fn | quote | var | assign | attempt | handler
  | cleanup | throw | case | dot | new | bindFns | deftype | reify | ampersand
  deriving DecidableEq, Repr

namespace SpecialForm

def ofName? : String → Option SpecialForm
  | "def" => some .define
  | "if" => some .cond
  | "do" => some .seq
  | "let*" => some .bind
  | "loop*" => some .loop
  | "recur" => some .recur
  | "fn*" => some .fn
  | "quote" => some .quote
  | "var" => some .var
  | "set!" => some .assign
  | "try" => some .attempt
  | "catch" => some .handler
  | "finally" => some .cleanup
  | "throw" => some .throw
  | "case*" => some .case
  | "." => some .dot
  | "new" => some .new
  | "letfn*" => some .bindFns
  | "deftype*" => some .deftype
  | "reify*" => some .reify
  | "&" => some .ampersand
  | _ => none

/-- The special form that a symbol names; a qualified symbol names none. -/
def ofSymbol? (s : Symbol) : Option SpecialForm := if s.isQualified then none else ofName? s.name

end SpecialForm

end LispMachine

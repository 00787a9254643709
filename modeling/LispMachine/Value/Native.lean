/-!
# Built-in functions and expanders

The functions and the form expanders that every session starts with.  Each is known by its name in
the core namespace; what they do is said where they are run.
-/
namespace LispMachine

inductive CoreFn where
  | plus | minus | times | divide | lt | gt | lte | gte | numEq | equals | inc | dec | isZero | isPos
  | isNeg | quot | rem | count | nth | get | toLong | toDouble | identical | notEquals | mod | max
  | min | isEven | isOdd
  | list | vector | vec | hashMap | hashSet | first | second | last | rest | next | cons | conj
  | assoc | dissoc | contains | seq | isEmpty | keys | vals | concat | reverse | range | into | map
  | filter | reduce | apply
  | isNil | isSome | not | identity | isString | isNumber | isKeyword | isFn | isVector | isMap
  | hash | str | prStr | println | print | prn | nameOf | keyword | symbol | gensym | type | isInstance
  | exInfo | exMessage | exData | deref | metaOf | inNs | pushThreadBindings | popThreadBindings
  | makeProtocol | protocolMethod | extend | satisfies
  deriving DecidableEq, Repr

namespace CoreFn

def name : CoreFn → String
  | .plus => "+" | .minus => "-" | .times => "*" | .divide => "/" | .lt => "<" | .gt => ">"
  | .lte => "<=" | .gte => ">=" | .numEq => "==" | .equals => "=" | .inc => "inc" | .dec => "dec"
  | .isZero => "zero?" | .isPos => "pos?" | .isNeg => "neg?" | .quot => "quot" | .rem => "rem"
  | .count => "count" | .nth => "nth" | .get => "get" | .toLong => "long" | .toDouble => "double"
  | .identical => "identical?" | .notEquals => "not=" | .mod => "mod" | .max => "max"
  | .min => "min" | .isEven => "even?" | .isOdd => "odd?"
  | .list => "list" | .vector => "vector" | .vec => "vec" | .hashMap => "hash-map"
  | .hashSet => "hash-set" | .first => "first" | .second => "second" | .last => "last"
  | .rest => "rest" | .next => "next" | .cons => "cons" | .conj => "conj" | .assoc => "assoc"
  | .dissoc => "dissoc" | .contains => "contains?" | .seq => "seq" | .isEmpty => "empty?"
  | .keys => "keys" | .vals => "vals" | .concat => "concat" | .reverse => "reverse"
  | .range => "range" | .into => "into" | .map => "map" | .filter => "filter"
  | .reduce => "reduce" | .apply => "apply"
  | .isNil => "nil?" | .isSome => "some?" | .not => "not" | .identity => "identity"
  | .isString => "string?" | .isNumber => "number?" | .isKeyword => "keyword?" | .isFn => "fn?"
  | .isVector => "vector?" | .isMap => "map?" | .hash => "hash" | .str => "str"
  | .prStr => "pr-str" | .println => "println" | .print => "print" | .prn => "prn"
  | .nameOf => "name" | .keyword => "keyword" | .symbol => "symbol" | .gensym => "gensym"
  | .type => "type" | .isInstance => "instance?" | .exInfo => "ex-info"
  | .exMessage => "ex-message" | .exData => "ex-data" | .deref => "deref" | .metaOf => "meta"
  | .inNs => "in-ns" | .pushThreadBindings => "push-thread-bindings"
  | .popThreadBindings => "pop-thread-bindings" | .makeProtocol => "-make-protocol"
  | .protocolMethod => "-protocol-method" | .extend => "extend" | .satisfies => "satisfies?"

/-- All functions, in the order in which the core namespace holds them. -/
def all : List CoreFn := [
  .plus, .minus, .times, .divide, .lt, .gt, .lte, .gte, .numEq, .equals, .inc, .dec, .isZero, .isPos,
  .isNeg, .quot, .rem, .count, .nth, .get, .toLong, .toDouble, .identical, .notEquals, .mod, .max,
  .min, .isEven, .isOdd,
  .list, .vector, .vec, .hashMap, .hashSet, .first, .second, .last, .rest, .next, .cons, .conj,
  .assoc, .dissoc, .contains, .seq, .isEmpty, .keys, .vals, .concat, .reverse, .range, .into, .map,
  .filter, .reduce, .apply,
  .isNil, .isSome, .not, .identity, .isString, .isNumber, .isKeyword, .isFn, .isVector, .isMap,
  .hash, .str, .prStr, .println, .print, .prn, .nameOf, .keyword, .symbol, .gensym, .type, .isInstance,
  .exInfo, .exMessage, .exData, .deref, .metaOf, .inNs, .pushThreadBindings, .popThreadBindings,
  .makeProtocol, .protocolMethod, .extend, .satisfies]

/-- A call of the function with so many arguments may be replaced by a static member of a host
class. -/
structure Inline where
  className : String
  member : String
  arities : List Nat
  deriving DecidableEq, Repr

def inline? : CoreFn → Option Inline
  | .plus => some ⟨"Numbers", "add", [2]⟩
  | .minus => some ⟨"Numbers", "minus", [2]⟩
  | .times => some ⟨"Numbers", "multiply", [2]⟩
  | .divide => some ⟨"Numbers", "divide", [2]⟩
  | .lt => some ⟨"Numbers", "lt", [2]⟩
  | .gt => some ⟨"Numbers", "gt", [2]⟩
  | .lte => some ⟨"Numbers", "lte", [2]⟩
  | .gte => some ⟨"Numbers", "gte", [2]⟩
  | .numEq => some ⟨"Numbers", "equiv", [2]⟩
  | .equals => some ⟨"Util", "equiv", [2]⟩
  | .inc => some ⟨"Numbers", "inc", [1]⟩
  | .dec => some ⟨"Numbers", "dec", [1]⟩
  | .isZero => some ⟨"Numbers", "isZero", [1]⟩
  | .isPos => some ⟨"Numbers", "isPos", [1]⟩
  | .isNeg => some ⟨"Numbers", "isNeg", [1]⟩
  | .quot => some ⟨"Numbers", "quotient", [2]⟩
  | .rem => some ⟨"Numbers", "remainder", [2]⟩
  | .count => some ⟨"RT", "count", [1]⟩
  | .nth => some ⟨"RT", "nth", [2]⟩
  | .get => some ⟨"RT", "get", [2]⟩
  | .toLong => some ⟨"RT", "longCast", [1]⟩
  | .toDouble => some ⟨"RT", "doubleCast", [1]⟩
  | .identical => some ⟨"Util", "identical", [2]⟩
  | _ => none

end CoreFn

inductive Expander where
  | defn | defExpander | declare | when | whenNot | ifNot | cond | and | or | ifLet | whenLet | case
  | threadFirst | threadLast | let' | loop | fn | letfn | binding | dotimes | comment | defprotocol
  | extendType | deftype | reify
  deriving DecidableEq, Repr

namespace Expander

def name : Expander → String
  | .defn => "defn" | .defExpander => "defmacro" | .declare => "declare" | .when => "when"
  | .whenNot => "when-not" | .ifNot => "if-not" | .cond => "cond" | .and => "and" | .or => "or"
  | .ifLet => "if-let" | .whenLet => "when-let" | .case => "case" | .threadFirst => "->"
  | .threadLast => "->>" | .let' => "let" | .loop => "loop" | .fn => "fn" | .letfn => "letfn"
  | .binding => "binding" | .dotimes => "dotimes" | .comment => "comment"
  | .defprotocol => "defprotocol" | .extendType => "extend-type" | .deftype => "deftype"
  | .reify => "reify"

/-- All expanders, in the order in which the core namespace holds them. -/
def all : List Expander := [
  .defn, .defExpander, .declare, .when, .whenNot, .ifNot, .cond, .and, .or, .ifLet, .whenLet, .case,
  .threadFirst, .threadLast, .let', .loop, .fn, .letfn, .binding, .dotimes, .comment, .defprotocol,
  .extendType, .deftype, .reify]

end Expander

inductive Native where
  | fn (f : CoreFn)
  | expander (e : Expander)
  deriving DecidableEq, Repr

def Native.name : Native → String
  | .fn f => f.name
  | .expander e => e.name

end LispMachine

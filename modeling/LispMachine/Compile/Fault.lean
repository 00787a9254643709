import LispMachine.Value.Basic
import LispMachine.Form.Reader
import LispMachine.World.Load
/-!
# What can be wrong with a form

A fault is the cause for which a form is rejected, or for which its evaluation ended.  Every fault
belongs to one of seven kinds and has one wording.
-/
namespace LispMachine

inductive FaultKind where
  /-- A special form has the wrong shape. -/
  | syntaxKind
  /-- A symbol, class or member cannot be found, or the choice is open. -/
  | resolution
  /-- A `recur` or an assignment stands where it may not. -/
  | scope
  /-- A primitive type hint cannot be honoured. -/
  | type
  /-- An expander failed. -/
  | expansion
  | read
  /-- An exception left the evaluation. -/
  | eval
  deriving DecidableEq, Repr

def FaultKind.name : FaultKind → String
  | .syntaxKind => "SyntaxError"
  | .resolution => "ResolutionError"
  | .scope => "ScopeError"
  | .type => "TypeError"
  | .expansion => "MacroError"
  | .read => "ReadError"
  | .eval => "EvalError"

inductive CompileFault where
  -- the shape of special forms
  | tooFewArguments (form : String)
  | tooManyArguments (form : String)
  | defNameNotSymbol
  | defOutsideNamespace
  | bindingsNotVector
  | bindingsUnpaired
  | bindingNotSymbol (form : Form)
  | bindingQualified (name : Symbol)
  | quoteArity (count : Nat)
  | malformedVar
  | malformedAssignment
  | invalidAssignmentTarget
  | finallyNotLast
  | bodyAfterCatch
  | malformedCatch
  | catchQualified (name : Symbol)
  | paramsMissing
  | paramNotSymbol
  | paramsInvalid
  | paramQualified (name : Symbol)
  | twoVariadic
  | sameArity
  | fixedBeyondVariadic
  | typeNameExpected
  | fieldVectorExpected
  | badField (form : Form)
  | badTypeMethod (form : Form)
  | protocolVectorExpected
  | badProtocol (form : Form)
  | badReifyMethod (form : Form)
  | methodNotDeclared (method : String)
  | methodWithoutTarget (method : String)
  | methodParamsInvalid (method : String)
  | malformedMember
  | malformedDot
  | malformedMemberCall
  | fieldWithArguments (name : String)
  | malformedNew
  | duplicateKey (key : Form)
  | duplicateCaseTest (test : Form)
  | valueOfExpander (name : Symbol)
  | notAFunction
  -- names that cannot be resolved
  | unresolvedSymbol (text : String)
  | unknownStaticField (name className : String)
  | unresolvedVar (name : Symbol)
  | unresolvedClass (text : String)
  | ambiguousMember (name : String)
  | unresolvedInStrictMode (what : String)
  | noMatchingMethod (name : String) (argc : Nat) (className : String)
  | noMatchingConstructor (className : String)
  | unresolvedProtocol (name : Symbol)
  | notAProtocol (name : Symbol)
  | notLoadable (cause : LoadError)
  -- misplaced forms
  | recurInHandler
  | recurNotInTail
  | recurAcrossTry
  | recurArity (expected got : Nat)
  | notAssignable (name : String)
  | notVisible (name : String)
  | fieldAssignmentInEval
  -- primitive hints
  | unsupportedPrimitive
  | variadicPrimitives
  | tooManyPrimitives
  | mismatchedReturn (expected had : Prim)
  -- failures from outside the analysis
  | expander (message : String)
  | source (cause : SourceError)
  /-- A file that cannot be read. -/
  | file (message : String)
  /-- The thrown value, and its text at that time. -/
  | thrown (value : Value) (text : String)
  | notEvaluable

namespace CompileFault

def kind : CompileFault → FaultKind
  | .unresolvedSymbol _ | .unknownStaticField .. | .unresolvedVar _ | .unresolvedClass _
  | .ambiguousMember _ | .unresolvedInStrictMode _ | .noMatchingMethod .. | .noMatchingConstructor _
  | .unresolvedProtocol _ | .notAProtocol _ | .notLoadable _ => .resolution
  | .recurInHandler | .recurNotInTail | .recurAcrossTry | .recurArity .. | .notAssignable _
  | .notVisible _ | .fieldAssignmentInEval => .scope
  | .unsupportedPrimitive | .variadicPrimitives | .tooManyPrimitives | .mismatchedReturn .. => .type
  | .expander _ => .expansion
  | .source _ | .file _ => .read
  | .thrown .. | .notEvaluable => .eval
  | _ => .syntaxKind

def message : CompileFault → String
  | .tooFewArguments "throw" =>
    "Too few arguments to throw, throw expects a single Throwable instance"
  | .tooManyArguments "throw" =>
    "Too many arguments to throw, throw expects a single Throwable instance"
  | .tooFewArguments form => "Too few arguments to " ++ form
  | .tooManyArguments form => "Too many arguments to " ++ form
  | .defNameNotSymbol => "First argument to def must be a Symbol"
  | .defOutsideNamespace => "Can\x27t create defs outside of current ns"
  | .bindingsNotVector => "Bad binding form, expected vector"
  | .bindingsUnpaired => "Bad binding form, expected matched symbol expression pairs"
  | .bindingNotSymbol form => "Bad binding form, expected symbol, got: " ++ form.render
  | .bindingQualified name => "Can\x27t let qualified name: " ++ name.render
  | .quoteArity count => "Wrong number of args (" ++ toString count ++ ") passed to quote"
  | .malformedVar => "Malformed var special form, expecting (var sym)"
  | .malformedAssignment => "Malformed assignment, expecting (set! target val)"
  | .invalidAssignmentTarget => "Invalid assignment target"
  | .finallyNotLast => "finally clause must be last in try expression"
  | .bodyAfterCatch => "Only catch or finally clause can follow catch in try expression"
  | .malformedCatch => "Malformed catch, expecting (catch Class name body*)"
  | .catchQualified name => "Can\x27t bind qualified name: " ++ name.render
  | .paramsMissing => "Parameter declaration missing"
  | .paramNotSymbol => "fn params must be Symbols"
  | .paramsInvalid => "Invalid parameter list"
  | .paramQualified name => "Can\x27t use qualified name as parameter: " ++ name.render
  | .twoVariadic => "Can\x27t have more than 1 variadic overload"
  | .sameArity => "Can\x27t have 2 overloads with same arity"
  | .fixedBeyondVariadic =>
    "Can\x27t have fixed arity function with more params than variadic function"
  | .typeNameExpected => "deftype* expects an unqualified type name"
  | .fieldVectorExpected => "deftype* expects a field vector"
  | .badField form => "Bad field declaration, expected symbol, got: " ++ form.render
  | .badTypeMethod form => "Malformed deftype* method: " ++ form.render
  | .protocolVectorExpected => "reify* expects a vector of protocols"
  | .badProtocol form => "Bad protocol in reify*, expected symbol, got: " ++ form.render
  | .badReifyMethod form => "Malformed reify* method: " ++ form.render
  | .methodNotDeclared method => "Can\x27t define method not in interfaces: " ++ method
  | .methodWithoutTarget method =>
    "Method " ++ method ++ " must take at least one argument for the target object"
  | .methodParamsInvalid method => "Invalid parameter list for method " ++ method
  | .malformedMember => "Malformed member expression"
  | .malformedDot => "Malformed member expression, expecting (. target member ...)"
  | .malformedMemberCall => "Malformed member expression, expecting (.member target ...)"
  | .fieldWithArguments name => "Field access takes no arguments: " ++ name
  | .malformedNew => "wrong number of arguments, expecting: (new Classname args...)"
  | .duplicateKey key => "Duplicate key: " ++ key.render
  | .duplicateCaseTest test => "Duplicate case test constant: " ++ test.render
  | .valueOfExpander name => "Can\x27t take value of a macro: #\x27" ++ name.render
  | .notAFunction => "Top-level form did not compile to a fn"
  | .unresolvedSymbol text => "Unable to resolve symbol: " ++ text ++ " in this context"
  | .unknownStaticField name className =>
    "Unable to find static field: " ++ name ++ " in class " ++ className
  | .unresolvedVar name => "Unable to resolve var: " ++ name.render ++ " in this context"
  | .unresolvedClass text => "Unable to resolve classname: " ++ text
  | .ambiguousMember name => "More than one matching method found: " ++ name
  | .unresolvedInStrictMode what => "Unable to resolve at compile time: " ++ what
  | .noMatchingMethod name argc className =>
    "No matching method " ++ name ++ " found taking " ++ toString argc ++ " args for class " ++
      className
  | .noMatchingConstructor className => "No matching ctor found for class " ++ className
  | .unresolvedProtocol name => "Unable to resolve protocol: " ++ name.render
  | .notAProtocol name => name.render ++ " is not a protocol"
  | .notLoadable cause => cause.message
  | .recurInHandler => "Cannot recur from catch/finally"
  | .recurNotInTail => "Can only recur from tail position"
  | .recurAcrossTry => "Cannot recur across try"
  | .recurArity expected got =>
    "Mismatched argument count to recur, expected: " ++ toString expected ++ " args, got: " ++
      toString got
  | .notAssignable name => "Cannot assign to non-mutable: " ++ name
  | .notVisible name => "Local " ++ name ++ " is not visible here"
  | .fieldAssignmentInEval => "Can\x27t eval assignment to a field"
  | .unsupportedPrimitive => "Only long and double primitives are supported"
  | .variadicPrimitives => "fns taking primitives cannot be variadic"
  | .tooManyPrimitives => "fns taking primitives support only 4 or fewer args"
  | .mismatchedReturn expected had =>
    "Mismatched primitive return, expected: " ++ expected.name ++ ", had: " ++ had.name
  | .expander message => message
  | .source cause => cause.message
  | .file message => message
  | .thrown _ text => text
  | .notEvaluable => "Can\x27t eval this form without compiling it"

end CompileFault

end LispMachine

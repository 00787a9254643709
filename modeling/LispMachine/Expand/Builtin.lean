import LispMachine.Form.Printer
import LispMachine.Value.Native
/-!
# The built-in expanders

Each takes the whole call and its arguments and gives the form that stands in its place.  The result
may be a call of an expander again.  Temporary names are numbered from a counter, which is the state.
-/
namespace LispMachine

inductive ExpandError where
  | arity (count : Nat) (name : String)
  | notSymbol (what type : String)
  | bindingNotVector (name : String)
  | bindingNotPair (name : String)
  | bindingUnpaired
  | paramsMissing
  | condUnpaired
  | notFunctionSpec
  | badSignature (form : Form)
  | methodBeforeProtocol
  | badImplementation (form : Form)
  | fieldNotSymbol (form : Form)

def ExpandError.message : ExpandError → String
  | .arity count name => "Wrong number of args (" ++ toString count ++ ") passed to: " ++ name
  | .notSymbol what type => what ++ " must be a symbol, got " ++ type
  | .bindingNotVector name => name ++ " requires a vector for its binding"
  | .bindingNotPair name => name ++ " requires exactly 2 forms in binding vector"
  | .bindingUnpaired => "binding requires an even number of forms in binding vector"
  | .paramsMissing => "Parameter declaration missing"
  | .condUnpaired => "cond requires an even number of forms"
  | .notFunctionSpec => "letfn bindings must be function specs"
  | .badSignature form => "Invalid protocol method signature: " ++ form.render
  | .methodBeforeProtocol => "Method implementation must follow a protocol name"
  | .badImplementation form => "Invalid protocol implementation: " ++ form.render
  | .fieldNotSymbol form => "deftype fields must be symbols, got " ++ form.render

/-- An expansion; the state is the next number for a temporary name. -/
abbrev Expansion := StateT Nat (Except ExpandError)

namespace Expander

/-! ## Building forms -/

def sym (name : String) : Form := .symbol (Symbol.plain name) none

def bare (s : Symbol) : Form := .symbol s none

def call (head : String) (args : List Form) : Form := .ofItems (sym head :: args)

def quoted (f : Form) : Form := call "quote" [f]

def gensym (stem : String) : Expansion Form :=
  modifyGet fun n => (sym (stem ++ "__" ++ toString n ++ "__auto__"), n + 1)

/-- A single form stands for itself, several are put in sequence. -/
def doBody : List Form → Form
  | [single] => single
  | body => call "do" body

/-- Another head for the same call, at the same place. -/
def rename (form : Form) (args : List Form) (head : String) : Form :=
  (call head args).withInfo form.info?

/-- The elements of a list two by two; an odd one at the end is left out. -/
def pairs {α : Type} : List α → List (α × α)
  | a :: b :: rest => (a, b) :: pairs rest
  | _ => []

/-! ## Checking arguments -/

def needSymbol (f : Form) (what : String) : Except ExpandError Symbol :=
  match f.symbol? with
  | some s => .ok s
  | none => .error (.notSymbol what f.typeName)

def needVector (f : Option Form) (name : String) : Except ExpandError (List Form) :=
  match f.bind Form.vector? with
  | some items => .ok items
  | none => .error (.bindingNotVector name)

def needArgs (args : List Form) (n : Nat) (name : String) : Except ExpandError PUnit :=
  if args.length < n then .error (.arity args.length name) else .ok ⟨⟩

/-- A binding vector of one name and one form. -/
def needPair (args : List Form) (name : String) : Except ExpandError (Form × Form) := do
  match ← needVector args.head? name with
  | [a, b] => return (a, b)
  | _ => .error (.bindingNotPair name)

/-! ## Definitions -/

/-- Takes a text and a map of attributes that stand in front of something else as metadata of the
name. -/
def definitionHeader (args : List Form) (name : String) :
    Except ExpandError (Symbol × Form.Info × List Form) := do
  needArgs args 1 name
  let head := args.headD .nil
  let s ← needSymbol head "First argument to def"
  let info := head.info?.getD {}
  let (info, rest) := match args.tail with
    | .str doc :: next :: rest => (info.insert (Form.kw "doc") (.str doc), next :: rest)
    | rest => (info, rest)
  let (info, rest) := match rest with
    | .map attrs _ :: next :: rest => (info.merge (Meta.ofPairs attrs), next :: rest)
    | rest => (info, rest)
  return (s, info, rest)

/-- The bodies of a function, each with its parameter vector in front. -/
def arities (rest : List Form) : Except ExpandError (List (Form × List Form)) :=
  match rest with
  | .vector ps i :: body => .ok [(.vector ps i, body)]
  | .list .. :: _ => rest.mapM fun
    | .list (.vector ps i :: body) _ => .ok (.vector ps i, body)
    | _ => .error .paramsMissing
  | _ => .error .paramsMissing

def defineFn (name : Symbol) (info : Form.Info) (bodies : List (Form × List Form)) : Form :=
  let fn := call "fn*" (bare name :: bodies.map fun (params, body) => .ofItems (params :: body))
  call "def" [.symbol name (some info), fn]

def expandDefn (args : List Form) : Except ExpandError Form := do
  let (name, info, rest) ← definitionHeader args "defn"
  return defineFn name info (← arities rest)

/-- The function of an expander takes the call and the visible locals before its own parameters. -/
def expandDefExpander (args : List Form) : Except ExpandError Form := do
  let (name, info, rest) ← definitionHeader args "defmacro"
  let bodies := (← arities rest).map fun (params, body) =>
    (Form.ofVector (sym "&form" :: sym "&env" :: params.vector?.getD []), body)
  return defineFn name (info.insert (Form.kw "macro") (.bool true)) bodies

def expandDeclare (args : List Form) : Form := call "do" (args.map fun name => call "def" [name])

/-! ## Conditions -/

def expandWhen (args : List Form) : Except ExpandError Form := do
  needArgs args 1 "when"
  return call "if" [args.headD .nil, doBody args.tail]

def expandWhenNot (args : List Form) : Except ExpandError Form := do
  needArgs args 1 "when-not"
  return call "if" [args.headD .nil, .nil, doBody args.tail]

def expandIfNot (args : List Form) : Except ExpandError Form := do
  needArgs args 2 "if-not"
  return call "if" [args.headD .nil, (args[2]?).getD .nil, (args[1]?).getD .nil]

def expandCond (args : List Form) : Except ExpandError Form :=
  if args.length % 2 != 0 then .error .condUnpaired
  else .ok ((pairs args).foldr (fun (test, value) otherwise => call "if" [test, value, otherwise]) .nil)

def expandAnd : List Form → Expansion Form
  | [] => return .bool true
  | [only] => return only
  | first :: rest => do
    let g ← gensym "and"
    return call "let*" [.ofVector [g, first], call "if" [g, call "and" rest, g]]

def expandOr : List Form → Expansion Form
  | [] => return .nil
  | [only] => return only
  | first :: rest => do
    let g ← gensym "or"
    return call "let*" [.ofVector [g, first], call "if" [g, g, call "or" rest]]

def expandIfLet (args : List Form) : Expansion Form := do
  needArgs args 2 "if-let"
  let (name, test) ← needPair args "if-let"
  let g ← gensym "temp"
  let yes := call "let*" [.ofVector [name, g], (args[1]?).getD .nil]
  return call "let*" [.ofVector [g, test], call "if" [g, yes, (args[2]?).getD .nil]]

def expandWhenLet (args : List Form) : Expansion Form := do
  needArgs args 2 "when-let"
  let (name, test) ← needPair args "when-let"
  let g ← gensym "temp"
  let yes := call "let*" (.ofVector [name, g] :: args.tail)
  return call "let*" [.ofVector [g, test], call "if" [g, yes]]

/-- The value is computed once and bound to a name. -/
def expandCase (args : List Form) : Expansion Form := do
  needArgs args 1 "case"
  let g ← gensym "case"
  return call "let*" [.ofVector [g, args.headD .nil], call "case*" (g :: args.tail)]

/-! ## Threading -/

/-- Puts a form into a step as the first or the last argument. -/
def threadInto (atEnd : Bool) (acc step : Form) : Form :=
  match step with
  | .list (head :: rest) info =>
    .list (if atEnd then head :: rest ++ [acc] else head :: acc :: rest) info
  | other => .ofItems [other, acc]

def expandThread (atEnd : Bool) (name : String) (args : List Form) : Except ExpandError Form := do
  needArgs args 1 name
  return args.tail.foldl (threadInto atEnd) (args.headD .nil)

/-! ## Bindings -/

def expandLet (form : Form) (args : List Form) : Except ExpandError Form := do
  let _ ← needVector args.head? "let"
  return rename form args "let*"

def expandLoop (form : Form) (args : List Form) : Except ExpandError Form := do
  let _ ← needVector args.head? "loop"
  return rename form args "loop*"

def localFn (spec : Form) : Except ExpandError (List Form) := do
  match spec with
  | .list items _ =>
    let head := items.headD .nil
    let _ ← needSymbol head "letfn function name"
    return [head, call "fn*" items]
  | _ => .error .notFunctionSpec

def expandLetfn (args : List Form) : Except ExpandError Form := do
  let specs ← needVector args.head? "letfn"
  let bindings ← specs.mapM localFn
  return call "letfn*" (.ofVector bindings.flatten :: args.tail)

/-- The bindings are pushed, and popped again when the body is left. -/
def expandBinding (args : List Form) : Except ExpandError Form := do
  let items ← needVector args.head? "binding"
  if items.length % 2 != 0 then .error .bindingUnpaired
  else
    let frame := call "hash-map" ((pairs items).flatMap fun (k, v) => [call "var" [k], v])
    let body := call "try" (args.tail ++ [call "finally" [call "pop-thread-bindings" []]])
    return call "do" [call "push-thread-bindings" [frame], body]

def expandDotimes (args : List Form) : Expansion Form := do
  let (i, n) ← needPair args "dotimes"
  let limit ← gensym "n"
  let body := call "do" (args.tail ++ [call "recur" [call "inc" [i]]])
  let loop := call "loop*" [.ofVector [i, .long 0], call "if" [call "<" [i, limit], body]]
  return call "let*" [.ofVector [limit, call "long" [n]], loop]

/-! ## Protocols and types -/

/-- The names of the methods that a protocol declares; texts are skipped. -/
def signatures : List Form → Except ExpandError (List Symbol)
  | [] => .ok []
  | .str _ :: rest => signatures rest
  | .list items _ :: rest => do
    let s ← needSymbol (items.headD .nil) "Protocol method name"
    return s :: (← signatures rest)
  | other :: _ => .error (.badSignature other)

def expandDefprotocol (args : List Form) : Except ExpandError Form := do
  needArgs args 1 "defprotocol"
  let name ← needSymbol (args.headD .nil) "Protocol name"
  let methods ← signatures args.tail
  let protocol := call "def" [bare name,
    call "-make-protocol" [quoted (bare name), quoted (.ofVector (methods.map bare))]]
  let define (m : Symbol) : Form :=
    let info : Form.Info := Meta.insert {} (Form.kw "protocol") (bare name)
    call "def" [.symbol m (some info), call "-protocol-method" [bare name, quoted (bare m)]]
  return call "do" (protocol :: methods.map define ++ [bare name])

/-- Protocol names, each with the methods that follow it. -/
def protocolSpecs (forms : List Form) : Except ExpandError (List (Form × List (List Form))) :=
  go [] forms
where
  /-- The specs so far are in reverse, and so are the methods of each. -/
  go (done : List (Form × List (List Form))) :
      List Form → Except ExpandError (List (Form × List (List Form)))
    | [] => .ok (done.reverse.map fun (p, ms) => (p, ms.reverse))
    | .symbol s i :: rest => go ((.symbol s i, []) :: done) rest
    | .list items _ :: rest =>
      match done with
      | (p, ms) :: done => go ((p, items :: ms) :: done) rest
      | [] => .error .methodBeforeProtocol
    | other :: _ => .error (.badImplementation other)

def addArity (name : Symbol) (body : Form) : List (Symbol × List Form) → List (Symbol × List Form)
  | [] => [(name, [body])]
  | (n, bodies) :: rest =>
    if n == name then (n, bodies ++ [body]) :: rest else (n, bodies) :: addArity name body rest

/-- The methods for one protocol as a map from names to functions. -/
def implementations (methods : List (List Form)) : Except ExpandError Form := do
  let grouped ← methods.foldlM (fun grouped m => do
    let name ← needSymbol (m.headD .nil) "Method name"
    return addArity name (.ofItems m.tail) grouped) []
  return .ofPairs (grouped.map fun (name, bodies) => (Form.kw name.name, call "fn*" (bare name :: bodies)))

def expandExtendType (args : List Form) : Except ExpandError Form := do
  needArgs args 1 "extend-type"
  let specs ← protocolSpecs args.tail
  let calls ← specs.mapM fun (protocol, methods) => do
    return call "extend" [args.headD .nil, protocol, ← implementations methods]
  return call "do" calls

/-- Defines the type and a function that makes its instances. -/
def expandDeftype (args : List Form) : Except ExpandError Form := do
  needArgs args 2 "deftype"
  let name ← needSymbol (args.headD .nil) "Type name"
  let fields ← needVector args[1]? "deftype"
  let _ ← protocolSpecs (args.drop 2)
  let params ← fields.mapM fun
    | .symbol s _ => .ok (bare s)
    | other => .error (.fieldNotSymbol other)
  let factory := sym ("->" ++ name.name)
  let make := call "new" (bare name :: params)
  return call "do" [call "deftype*" args,
    call "def" [factory, call "fn*" [factory, .ofItems [.ofVector params, make]]], bare name]

def expandReify (args : List Form) : Except ExpandError Form := do
  let specs ← protocolSpecs args
  return call "reify*" (.ofVector (specs.map (·.1)) :: specs.flatMap fun s => s.2.map .ofItems)

/-! ## All of them -/

def expand (e : Expander) (form : Form) (args : List Form) : Expansion Form :=
  match e with
  | .defn => expandDefn args
  | .defExpander => expandDefExpander args
  | .declare => return expandDeclare args
  | .when => expandWhen args
  | .whenNot => expandWhenNot args
  | .ifNot => expandIfNot args
  | .cond => expandCond args
  | .and => expandAnd args
  | .or => expandOr args
  | .ifLet => expandIfLet args
  | .whenLet => expandWhenLet args
  | .case => expandCase args
  | .threadFirst => expandThread false "->" args
  | .threadLast => expandThread true "->>" args
  | .let' => expandLet form args
  | .loop => expandLoop form args
  | .fn => return rename form args "fn*"
  | .letfn => expandLetfn args
  | .binding => expandBinding args
  | .dotimes => expandDotimes args
  | .comment => return .nil
  | .defprotocol => expandDefprotocol args
  | .extendType => expandExtendType args
  | .deftype => expandDeftype args
  | .reify => expandReify args

end Expander

end LispMachine

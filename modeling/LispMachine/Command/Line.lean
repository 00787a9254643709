import LispMachine.Compile.Options
/-!
# The command line

`[switches] [command [arguments]]`.  Arguments are taken from left to right.  Four switches and the
count of `v` may stand before or behind the command; a switch may be given once in each place.  After
`--` nothing is taken for a switch any more.
-/
namespace LispMachine.Command

inductive Switch where
  | strict
  | warnReflection
  | warnBoxing
  | noClearing
  /-- May be repeated. -/
  | verbose
  deriving DecidableEq, Repr

def Switch.ofLong? : String → Option Switch
  | "strict" => some .strict
  | "warn-reflection" => some .warnReflection
  | "warn-boxing" => some .warnBoxing
  | "no-clearing" => some .noClearing
  | "verbose" => some .verbose
  | _ => none

inductive Action where
  /-- Load a file and print the last value. -/
  | run (file : String)
  | eval (expr : String)
  | disasmFile (file : String)
  | disasmText (source : String)
  /-- Start a dialogue after loading some files. -/
  | repl (preload : List String)
  deriving DecidableEq, Repr

structure Invocation where
  switches : List Switch
  action : Action
  deriving DecidableEq, Repr

def Invocation.options (i : Invocation) : CompileOptions :=
  { strict := i.switches.contains .strict
    warnOnReflection := i.switches.contains .warnReflection
    warnOnBoxing := i.switches.contains .warnBoxing
    disableLocalsClearing := i.switches.contains .noClearing }

inductive Stop where
  | version
  | help
  /-- The command line makes no sense. -/
  | usage (message : String)
  deriving DecidableEq, Repr

structure Grammar where
  /-- The options that take a value, with their short names. -/
  options : List (String × Option Char) := []
  /-- Options that may be repeated. -/
  repeatable : List String := []
  hasVersion : Bool := false
  /-- The first argument that is no switch ends this part. -/
  stopsAtArgument : Bool := false

structure Given where
  switches : List Switch := []
  values : List (String × String) := []
  arguments : List String := []
  /-- What follows the argument that ended this part. -/
  rest : List String := []

def Given.value? (g : Given) (name : String) : Option String := g.values.lookup name

def Given.valuesOf (g : Given) (name : String) : List String :=
  (g.values.filter (·.1 == name)).map (·.2)

def Given.addSwitch (g : Given) (s : Switch) : Except Stop Given :=
  if s != .verbose && g.switches.contains s then .error (.usage "a switch is given twice")
  else .ok { g with switches := g.switches ++ [s] }

def Given.addValue (g : Given) (grammar : Grammar) (name value : String) : Except Stop Given :=
  if (g.value? name).isSome && !grammar.repeatable.contains name then
    .error (.usage ("--" ++ name ++ " is given twice"))
  else .ok { g with values := g.values ++ [(name, value)] }

def looksLikeSwitch (arg : String) : Bool :=
  match arg.toList with
  | '-' :: _ :: _ => true
  | _ => false

/-- The options and switches that are written together behind one dash.  An option takes what is left
of the argument as its value; the name of one that is left without a value is returned. -/
def shortCluster (grammar : Grammar) : List Char → Given → Except Stop (Given × Option String)
  | [], g => .ok (g, none)
  | c :: cs, g =>
    match grammar.options.find? fun o => o.2 == some c with
    | some (name, _) =>
      match cs with
      | [] => .ok (g, some name)
      | '=' :: value => do return (← g.addValue grammar name (String.ofList value), none)
      | value => do return (← g.addValue grammar name (String.ofList value), none)
    | none =>
      if c == 'v' then do shortCluster grammar cs (← g.addSwitch .verbose)
      else if c == 'h' then .error .help
      else if c == 'V' && grammar.hasVersion then .error .version
      else .error (.usage ("unexpected argument -" ++ String.singleton c))

def longOption (grammar : Grammar) (text : List Char) (g : Given) : Except Stop (Given × Option String) :=
  let name := String.ofList (text.takeWhile (· != '='))
  let value? : Option String := match text.dropWhile (· != '=') with
    | '=' :: value => some (String.ofList value)
    | _ => none
  if grammar.options.any (·.1 == name) then
    match value? with
    | some value => do return (← g.addValue grammar name value, none)
    | none => .ok (g, some name)
  else if value?.isSome then .error (.usage ("unexpected argument --" ++ name))
  else
    match Switch.ofLong? name with
    | some s => do return (← g.addSwitch s, none)
    | none =>
      if name == "help" then .error .help
      else if name == "version" && grammar.hasVersion then .error .version
      else .error (.usage ("unexpected argument --" ++ name))

/-- Takes arguments from left to right; `waiting` names an option that still needs its value. -/
def parse (grammar : Grammar) : Option String → List String → Given → Except Stop Given
  | some name, [], _ => .error (.usage ("a value is required for --" ++ name))
  | none, [], g => .ok g
  | some name, arg :: args, g =>
    if looksLikeSwitch arg then .error (.usage ("a value is required for --" ++ name))
    else do parse grammar none args (← g.addValue grammar name arg)
  | none, arg :: args, g =>
    match arg.toList with
    | ['-', '-'] =>
      if grammar.stopsAtArgument && !args.isEmpty then .error (.usage "unexpected argument")
      else .ok { g with arguments := g.arguments ++ args }
    | '-' :: '-' :: text => do
      let (g, waiting) ← longOption grammar text g
      parse grammar waiting args g
    | '-' :: c :: cs => do
      let (g, waiting) ← shortCluster grammar (c :: cs) g
      parse grammar waiting args g
    | _ =>
      if grammar.stopsAtArgument then .ok { g with arguments := [arg], rest := args }
      else parse grammar none args { g with arguments := g.arguments ++ [arg] }

/-! ## Commands -/

def start : Grammar := { hasVersion := true, stopsAtArgument := true }

/-- A file must have a name. -/
def fileName (path : String) : Except Stop String :=
  if path.isEmpty then .error (.usage "a file name is required") else .ok path

def single (what : String) : List String → Except Stop String
  | [value] => .ok value
  | [] => .error (.usage (what ++ " is required"))
  | _ => .error (.usage "unexpected argument")

def disasmAction (g : Given) : Except Stop Action := do
  match g.arguments with
  | [] =>
    match g.value? "expr" with
    | some source => return .disasmText source
    | none => .error (.usage "a file is required")
  | [file] =>
    let file ← fileName file
    return match g.value? "expr" with
      | some source => .disasmText source
      | none => .disasmFile file
  | _ => .error (.usage "unexpected argument")

def parseAction (name : String) (args : List String) : Except Stop (List Switch × Action) := do
  match name with
  | "run" =>
    let g ← parse {} none args {}
    return (g.switches, .run (← fileName (← single "a file" g.arguments)))
  | "eval" =>
    let g ← parse {} none args {}
    return (g.switches, .eval (← single "an expression" g.arguments))
  | "disasm" =>
    let g ← parse { options := [("expr", some 'e')] } none args {}
    return (g.switches, ← disasmAction g)
  | "repl" =>
    let g ← parse { options := [("load", none)], repeatable := ["load"] } none args {}
    if g.arguments.isEmpty then
      return (g.switches, .repl (← (g.valuesOf "load").mapM fileName))
    else .error (.usage "unexpected argument")
  | "help" => .error .help
  | _ => .error (.usage ("unrecognized subcommand " ++ name))

/-- Understands a command line; without a command a dialogue starts. -/
def ofArgs (args : List String) : Except Stop Invocation := do
  let g ← parse start none args {}
  match g.arguments with
  | [] => return ⟨g.switches, .repl []⟩
  | name :: _ =>
    let (switches, action) ← parseAction name g.rest
    return ⟨g.switches ++ switches, action⟩

end LispMachine.Command

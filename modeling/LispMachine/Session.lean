import LispMachine.Analyze.Form
import LispMachine.Code.Listing
import LispMachine.Expr.Eval
/-!
# Sessions

A session evaluates forms one after the other in one world.  A form is expanded first.  The forms of
a `do` at the top are taken one by one, so that each sees what the one before it has defined.  What
computes is compiled into a function without parameters, which is loaded and called; definitions are
evaluated directly.
-/
namespace LispMachine

structure Session where
  options : CompileOptions
  world : World
  /-- The warnings since they were last taken, in order. -/
  warnings : List Warning := []

namespace Session

def start (options : CompileOptions) : Session :=
  { options, world := World.initial.withCompilerVars }

/-! ## One form -/

def needsCompilation : Form → Bool
  | .list (.symbol s _ :: _) _ => !s.name.startsWith "def"
  | .list items _ => !items.isEmpty
  | .vector .. | .map .. | .set .. => true
  | _ => false

/-- Compiles a form as the body of a function without parameters. -/
def compileThunk (f : Form) : Analysis CompiledUnit := do
  let thunk := Form.list [.symbol (Symbol.plain "fn*") none, .ofVector [], f] f.info?
  match ← Analyze.form .expression thunk with
  | .fn unit _ _ => return unit
  | _ => Analysis.fail .notAFunction

/-- Evaluates a form that is expanded and is no `do`. -/
def evalSingle (f : Form) : Analysis Value := do
  if needsCompilation f then
    let unit ← Analysis.load (← compileThunk f)
    let thunk ← Analysis.changeWorld (·.instantiate unit)
    Expr.running (Machine.call thunk [])
  else (← Analyze.form .eval f).eval

/-- Evaluates forms at the top in order, moving to the place of each; the value is that of the
last. -/
def evalEach (evalForm : Form → Analysis Value) : Value → List Form → Analysis Value
  | last, [] => return last
  | _, f :: fs => do
    Analysis.modify (·.moveTo f)
    let v ← evalForm f
    evalEach evalForm v fs

/-- Evaluates a form at the top; the first argument bounds the depth to which `do` forms nest. -/
def evalTop : Nat → Form → Analysis Value
  | 0, _ => Analysis.cut
  | fuel + 1, f => do
    let f ← Expand.fully Analyze.allowance f
    match f with
    | .list (.symbol s _ :: rest) _ =>
      if s.isPlain "do" then evalEach (evalTop fuel) .nil rest else evalSingle f
    | f => evalSingle f

/-- Runs an analysis that starts at a form.  An error without a place gets the place that the
analysis came to. -/
def analyzing {α : Type} (s : Session) (f : Form) (x : Analysis α) : Result α × Session :=
  let (r, c) := x (Context.moveTo { options := s.options, world := s.world } f)
  let r := match r with
    | .error e => .error (e.locate s.options.file c.scope.line c.scope.column)
    | r => r
  (r, { s with world := c.world, warnings := s.warnings ++ c.warnings.reverse })

def eval (s : Session) (f : Form) : Result Value × Session := s.analyzing f (evalTop Analyze.allowance f)

def compile (s : Session) (f : Form) : Result CompiledUnit × Session :=
  s.analyzing f do compileThunk (← Expand.fully Analyze.allowance f)

/-! ## Texts -/

def sourceError (s : Session) (cause : SourceError) : CompileError := .ofSource s.options.file cause

/-- Evaluates forms in order and stops at the first error. -/
def evalAll : Session → Value → List Form → Result Value × Session
  | s, last, [] => (.ok last, s)
  | s, _, f :: fs =>
    match s.eval f with
    | (.ok v, s) => evalAll s v fs
    | r => r

/-- Reads and evaluates every form of a text; the result is the last value.  What was defined before
an error stays, and so does what stands before the place where the text cannot be read. -/
def load (s : Session) (source : String) : Result Value × Session :=
  match Form.tokensOf source with
  | .error e => (.error (s.sourceError e), s)
  | .ok tokens =>
    let (forms, fault) := Form.readEach tokens
    match evalAll s .nil forms, fault with
    | (.ok _, s), some f => (.error (s.sourceError (.read f)), s)
    | r, _ => r

/-- Reads and evaluates a text of exactly one form. -/
def evalText (s : Session) (source : String) : Result Value × Session :=
  match Form.readOne source with
  | .error e => (.error (s.sourceError e), s)
  | .ok f => s.eval f

def loadFrom (s : Session) (path source : String) : Result Value × Session :=
  let (r, t) := Session.load { s with options := { s.options with file := some path } } source
  (r, { t with options := s.options })

/-- The listings of forms; each is evaluated after it is compiled, so that later forms see what it
defines. -/
def listEach : Session → String → List Form → Result String × Session
  | s, text, [] => (.ok text, s)
  | s, text, f :: fs =>
    match s.compile f with
    | (.ok unit, s) =>
      match s.eval f with
      | (.ok _, s) => listEach s (text ++ unit.render) fs
      | (.error e, s) => (.error e, s)
      | (.cut, s) => (.cut, s)
    | (.error e, s) => (.error e, s)
    | (.cut, s) => (.cut, s)

def listing (s : Session) (source : String) : Result String × Session :=
  match Form.readAll source with
  | .error e => (.error (s.sourceError e), s)
  | .ok forms => listEach s "" forms

end Session

end LispMachine

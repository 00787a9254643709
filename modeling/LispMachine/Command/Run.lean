import LispMachine.Command.Line
import LispMachine.Command.Repl
/-!
# Running a command

What a command shows on the two output channels, and how it ends.  Files and lines of input come from
outside.
-/
namespace LispMachine.Command

inductive Failure where
  | rejected (e : CompileError)
  | unreadable (file reason : String)

def Failure.report : Failure → String
  | .rejected e => "Error: " ++ e.display ++ "\n"
  | .unreadable file reason => "Error: failed to read " ++ file ++ "\n\nCaused by:\n    " ++ reason ++ "\n"

structure Ending where
  shown : Transcript
  failure : Option Failure := none

def Ending.code (e : Ending) : Nat := if e.failure.isSome then 1 else 0

/-- What the session has shown so far, followed by its result. -/
def conclude {α : Type} (result : Result α × Session) (text : World → α → String) : Ending :=
  let r := Repl.flush { session := result.2 }
  match result.1 with
  | .ok a => { shown := (r.print (text r.session.world a)).shown }
  | .error e => { shown := r.shown, failure := some (.rejected e) }
  | .cut => { shown := r.shown }

def versionText : String := "kiln 0.1.0\n"

def valueUnlessNil (w : World) (v : Value) : String := if v.isNil then "" else Repl.valueLine w v

def openRepl {m : Type → Type} [Monad m] (read : String → m (Except String String)) (session : Session)
    (preload : List String) : m Repl := do
  let r ← Repl.preload read { session } preload
  return r.print Repl.banner

/-- Runs a command.  `read` gives the text of a file or the reason why there is none, and `dialogue`
goes through the lines of input. -/
def execute {m : Type → Type} [Monad m] (read : String → m (Except String String))
    (dialogue : Repl → m Repl) (i : Invocation) : m Ending := do
  let session := Session.start i.options
  match i.action with
  | .run file =>
    match ← read file with
    | .ok source => return conclude (session.loadFrom file source) valueUnlessNil
    | .error reason => return { shown := {}, failure := some (.rejected { fault := .file reason }) }
  | .eval expr => return conclude (session.load expr) Repl.valueLine
  | .disasmText source => return conclude (session.listing source) fun _ text => text
  | .disasmFile file =>
    match ← read file with
    | .ok source =>
      let named := { session with options := { session.options with file := some file } }
      return conclude (named.listing source) fun _ text => text
    | .error reason => return { shown := {}, failure := some (.unreadable file reason) }
  | .repl preload =>
    let r ← openRepl read session preload
    return { shown := (← dialogue r).shown }

end LispMachine.Command

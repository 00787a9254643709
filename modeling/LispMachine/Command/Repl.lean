import LispMachine.Session
import LispMachine.Text.Blank
/-!
# The dialogue

Lines are collected until they read as complete forms, so a form may span several lines.  A line that
starts with a colon is a command to the dialogue itself, unless it continues a form.
-/
namespace LispMachine

structure Transcript where
  out : String := ""
  err : String := ""
  deriving DecidableEq, Repr

namespace Repl

/-- Whether a text ends inside a form. -/
def isIncomplete (text : String) : Bool :=
  match Form.readAll text with
  | .error e => e.message.startsWith "EOF while reading"
  | .ok _ => false

/-- Adds a line to the text collected so far.  If the text is complete, it is handed over and the
collection starts again. -/
def collect (buffer line : String) : String × Option String :=
  let text := buffer ++ line ++ "\n"
  if isIncomplete text then (text, none) else ("", some text)

/-- The lines of a text without their ends. -/
def inputLines (text : String) : List String := (go [] text.toList).map String.ofList
where
  /-- The line so far is given in reverse. -/
  go (line : List Char) : List Char → List (List Char)
    | [] => if line.isEmpty then [] else [line.reverse]
    | '\n' :: rest => (dropReturn line).reverse :: go [] rest
    | c :: rest => go (c :: line) rest
  dropReturn : List Char → List Char
    | '\r' :: line => line
    | line => line

inductive Request where
  | nothing
  | help
  | quit
  | load (path : String)
  | disasm (source : String)
  | toggleWarnings
  /-- A command without the argument it needs. -/
  | missing (usage : String)
  | unknown (line : String)
  | source (line : String)
  deriving DecidableEq, Repr

/-- A command to the dialogue: a word, and what follows the first space. -/
def command (line : String) : Request :=
  let cs := line.toList
  let rest := Text.trim (String.ofList ((cs.dropWhile (· != ' ')).drop 1))
  match String.ofList (cs.takeWhile (· != ' ')) with
  | ":help" | ":h" => .help
  | ":quit" | ":q" => .quit
  | ":load" => if rest.isEmpty then .missing ":load <file>" else .load rest
  | ":disasm" => if rest.isEmpty then .missing ":disasm <expression>" else .disasm rest
  | ":warn" => .toggleWarnings
  | _ => .unknown line

def request (buffer line : String) : Request :=
  if buffer.isEmpty then
    let trimmed := Text.trim line
    if trimmed.isEmpty then .nothing
    else if trimmed.startsWith ":" then command trimmed
    else .source line
  else .source line

def banner : String :=
  "\nkiln REPL\nType expressions to evaluate, :help for commands, :quit to exit\n\n"

def farewell : String := "Bye!\n"

def helpText : String :=
  "\nCommands:\n" ++
  "  :help, :h       Show this help\n" ++
  "  :quit, :q       Exit the REPL\n" ++
  "  :load FILE      Load and evaluate a file\n" ++
  "  :disasm EXPR    Show the kIR for an expression without keeping it\n" ++
  "  :warn           Toggle reflection warnings\n" ++
  "\nExamples:\n" ++
  "  (+ 1 2)                         ; => 3\n" ++
  "  (defn sq [^long x] (* x x))\n" ++
  "  (sq 5)                          ; => 25\n" ++
  "  (loop [i 0] (if (< i 3) (recur (inc i)) i))  ; => 3\n\n"

end Repl

structure Repl where
  session : Session
  buffer : String := ""
  shown : Transcript := {}

namespace Repl

def print (r : Repl) (text : String) : Repl := { r with shown := { r.shown with out := r.shown.out ++ text } }

def complain (r : Repl) (text : String) : Repl :=
  { r with shown := { r.shown with err := r.shown.err ++ text ++ "\n" } }

/-- Shows what the session has printed and warned about. -/
def flush (r : Repl) : Repl :=
  let printed := r.print r.session.world.out
  let warned := r.session.warnings.foldl (fun r w => r.complain w.display) printed
  { warned with session := { r.session with world := { r.session.world with out := "" }, warnings := [] } }

def conclude {α : Type} (r : Repl) (result : Result α × Session) (text : World → α → String) : Repl :=
  let r := { r with session := result.2 }.flush
  match result.1 with
  | .ok a => r.print (text r.session.world a)
  | .error e => r.complain e.display
  | .cut => r

def valueLine (w : World) (v : Value) : String := w.render v ++ "\n"

/-- Evaluates a file; its text is given, or the reason why there is none. -/
def load (r : Repl) (path : String) (text : Except String String) : Repl :=
  match text with
  | .ok source => r.conclude (r.session.loadFrom path source) valueLine
  | .error reason => r.conclude (.error { fault := .file reason }, r.session) valueLine

/-- Evaluates what was collected, once it is complete. -/
def feed (r : Repl) (line : String) : Repl :=
  let (buffer, complete) := collect r.buffer line
  let r := { r with buffer }
  match complete with
  | some source => r.conclude (r.session.load source) valueLine
  | none => r

def disasm (r : Repl) (source : String) : Repl :=
  match Form.readOne source with
  | .error e => r.conclude (.error (.ofSource none e), r.session) fun _ u => CompiledUnit.render u
  | .ok f => r.conclude (r.session.compile f) fun _ u => u.render

def toggleWarnings (r : Repl) : Repl :=
  let on := !r.session.options.warnOnReflection
  let session := { r.session with options := { r.session.options with warnOnReflection := on } }
  { r with session }.print ("reflection warnings " ++ (if on then "on" else "off") ++ "\n")

/-- Answers a request; `read` gives the text of a file.  The result is none when the dialogue ends. -/
def answer {m : Type → Type} [Monad m] (read : String → m (Except String String)) (r : Repl) :
    Request → m (Repl × Bool)
  | .nothing => return (r, true)
  | .help => return (r.print helpText, true)
  | .quit => return (r, false)
  | .load path => do return (r.load path (← read path), true)
  | .disasm source => return (r.disasm source, true)
  | .toggleWarnings => return (r.toggleWarnings, true)
  | .missing usage => return (r.print ("Usage: " ++ usage ++ "\n"), true)
  | .unknown line => return (r.print ("Unknown command: " ++ line ++ ". Type :help for help.\n"), true)
  | .source line => return (r.feed line, true)

/-- Takes a line; the second result says whether the dialogue goes on. -/
def handleLine {m : Type → Type} [Monad m] (read : String → m (Except String String)) (r : Repl)
    (line : String) : m (Repl × Bool) := r.answer read (request r.buffer line)

/-- Takes lines until the dialogue ends; the end of the lines ends it with a farewell. -/
def handleLines {m : Type → Type} [Monad m] (read : String → m (Except String String)) :
    Repl → List String → m Repl
  | r, [] => return r.print farewell
  | r, line :: lines => do
    let (r, goesOn) ← r.handleLine read line
    if goesOn then handleLines read r lines else return r

def preload {m : Type → Type} [Monad m] (read : String → m (Except String String)) :
    Repl → List String → m Repl
  | r, [] => return r
  | r, path :: paths => do preload read (r.load path (← read path)) paths

end Repl

end LispMachine

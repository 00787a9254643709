import LispMachine.Command.Files
import LispMachine.Command.Run
/-!
# The program

Reads the command line, files and lines of input, and prints what the command shows.
-/
namespace LispMachine.Command

def readSource (path : String) : IO (Except String String) := do
  try
    return .ok (← IO.FS.readFile path)
  catch
    | .noFileOrDirectory .. => return .error FileError.notFound.message
    | e => return .error (toString e)

def showRepl (r : Repl) : IO Repl := do
  (← IO.getStdout).putStr r.shown.out
  (← IO.getStdout).flush
  (← IO.getStderr).putStr r.shown.err
  return { r with shown := {} }

partial def dialogue (input : IO.FS.Stream) (r : Repl) : IO Repl := do
  let r ← showRepl r
  let line ← input.getLine
  if line.isEmpty then return r.print Repl.farewell
  else
    let (r, goesOn) ← r.handleLine readSource ((Repl.inputLines line).headD "")
    if goesOn then dialogue input r else return r

def usageText : String :=
  "Usage: kiln [--strict] [--warn-reflection] [--warn-boxing] [--no-clearing] [-v] " ++
  "[run FILE | eval EXPR | disasm (FILE | -e EXPR) | repl [--load FILE]...]\n"

end LispMachine.Command

open LispMachine Command

def main (args : List String) : IO UInt32 := do
  match Command.ofArgs args with
  | .error .version =>
    (← IO.getStdout).putStr versionText
    return 0
  | .error .help =>
    (← IO.getStdout).putStr usageText
    return 0
  | .error (.usage message) =>
    (← IO.getStderr).putStr ("error: " ++ message ++ "\n\n" ++ usageText)
    return 2
  | .ok invocation =>
    let ending ← execute readSource (dialogue (← IO.getStdin)) invocation
    (← IO.getStdout).putStr ending.shown.out
    (← IO.getStderr).putStr ending.shown.err
    match ending.failure with
    | some f => (← IO.getStderr).putStr f.report
    | none => pure ()
    return UInt32.ofNat ending.code

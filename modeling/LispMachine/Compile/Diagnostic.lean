import LispMachine.Compile.Fault
import LispMachine.Compile.Options
/-!
# Errors and warnings

An error is a fault with the place of the innermost form that knows its place.  Line zero means that
no place is known; a place once attached stays.
-/
namespace LispMachine

def renderPlace (file : Option String) (line column : Nat) : String :=
  if line == 0 then ""
  else ", compiling:(" ++ file.getD noSourcePath ++ ":" ++ toString line ++ ":" ++ toString column ++ ")"

structure CompileError where
  fault : CompileFault
  file : Option String := none
  line : Nat := 0
  column : Nat := 0

namespace CompileError

def message (e : CompileError) : String := e.fault.message

def kind (e : CompileError) : FaultKind := e.fault.kind

/-- The value that was thrown, if evaluation ended that way. -/
def thrown? (e : CompileError) : Option Value :=
  match e.fault with
  | .thrown v _ => some v
  | _ => none

def isLocated (e : CompileError) : Bool := e.line > 0

/-- Attaches a place unless there is one. -/
def locate (e : CompileError) (file : Option String) (line column : Nat) : CompileError :=
  if e.isLocated || line == 0 then e else { e with file, line, column }

def ofSource (file : Option String) (cause : SourceError) : CompileError :=
  { fault := .source cause, file, line := cause.pos.line, column := cause.pos.column }

def display (e : CompileError) : String :=
  e.kind.name ++ ": " ++ e.message ++ renderPlace e.file e.line e.column

end CompileError

inductive WarningKind where
  | reflection
  | boxing
  | caseCollision
  /-- A name with earmuffs is defined without being declared dynamic. -/
  | dynamic
  deriving DecidableEq, Repr

def WarningKind.name : WarningKind → String
  | .reflection => "Reflection"
  | .boxing => "Boxing"
  | .caseCollision => "CaseCollision"
  | .dynamic => "Dynamic"

structure Warning where
  kind : WarningKind
  message : String
  file : Option String
  line : Nat
  column : Nat
  deriving DecidableEq, Repr

/-- A reflection warning names its place itself. -/
def Warning.display (w : Warning) : String :=
  match w.kind with
  | .reflection => w.message
  | _ => w.message ++ renderPlace w.file w.line w.column

end LispMachine

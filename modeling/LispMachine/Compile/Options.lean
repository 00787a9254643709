/-!
# Options of the compiler
-/
namespace LispMachine

structure CompileOptions where
  /-- Refuse host calls that cannot be resolved while compiling. -/
  strict : Bool := false
  warnOnReflection : Bool := false
  /-- Warn when a loop local loses its primitive kind. -/
  warnOnBoxing : Bool := false
  disableLocalsClearing : Bool := false
  /-- The file that errors and warnings name. -/
  file : Option String := none
  deriving DecidableEq, Repr, Inhabited

def noSourcePath : String := "NO_SOURCE_PATH"

def CompileOptions.fileName (o : CompileOptions) : String := o.file.getD noSourcePath

end LispMachine

import LispMachine.Value.Basic
import LispMachine.Form.Printer
/-!
# Values as text

`render` writes a value so that data can be read again; `display` writes texts and characters bare,
as they appear in running text.  The text of a builder is kept elsewhere, so both are given the
texts of all builders.
-/
namespace LispMachine.Value

def announce (type : ClassId) (message : Option String) : String :=
  let name := (ClassId.name? type).getD "Exception"
  match message with
  | some m => name ++ ": " ++ m
  | none => name

mutual

def render (builders : Array String) : Value → String
  | .nil => "nil"
  | .bool b => if b then "true" else "false"
  | .long n => toString n.toInt
  | .double d => Double.render d
  | .char c => Text.charLiteral c
  | .str s => Text.quoted s
  | .keyword k => k.render
  | .symbol s _ => s.render
  | .list _ items => "(" ++ renderItems builders items ++ ")"
  | .vector _ items => "[" ++ renderItems builders items ++ "]"
  | .set _ items => "#\x7b" ++ renderItems builders items ++ "\x7d"
  | .map _ pairs => "\x7b" ++ renderPairs builders pairs ++ "\x7d"
  | .fn _ _ name => "#object[Fn " ++ name ++ "]"
  | .native n => "#object[NativeFn " ++ n.name ++ "]"
  | .var _ name => "#\x27" ++ name.render
  | .type _ name => name
  | .protocol _ name => "#object[Protocol " ++ name.render ++ "]"
  | .protocolMethod _ _ name => "#object[ProtocolMethod " ++ name ++ "]"
  | .inst _ _ name => "#object[" ++ name ++ "]"
  | .builder id => (builders[id]?).getD ""
  | .exception _ cls message _ _ => "#error[" ++ announce cls message ++ "]"

def renderItems (builders : Array String) : List Value → String
  | [] => ""
  | [x] => render builders x
  | x :: xs => render builders x ++ " " ++ renderItems builders xs

def renderPairs (builders : Array String) : List (Value × Value) → String
  | [] => ""
  | [(k, v)] => render builders k ++ " " ++ render builders v
  | (k, v) :: rest =>
    render builders k ++ " " ++ render builders v ++ ", " ++ renderPairs builders rest

end

/-- The value inside running text: `nil` is empty, texts and characters stand for themselves. -/
def display (builders : Array String) : Value → String
  | .nil => ""
  | .str s => s
  | .char c => String.singleton c
  | .exception _ cls message _ _ => announce cls message
  | v => render builders v

end LispMachine.Value

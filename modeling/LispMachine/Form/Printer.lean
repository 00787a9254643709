import LispMachine.Form.Basic
import LispMachine.Double.Printer
/-!
# Forms as text

Forms are written so that they can be read again.  Inside a string literal five characters are
escaped, three blank characters have names of their own, and the entries of a map are set apart by
commas.
-/
namespace LispMachine

namespace Text

def escapeChar : Char → List Char
  | '"' => ['\\', '"']
  | '\\' => ['\\', '\\']
  | '\n' => ['\\', 'n']
  | '\t' => ['\\', 't']
  | '\r' => ['\\', 'r']
  | c => [c]

def quoted (s : String) : String :=
  String.ofList ('"' :: s.toList.flatMap escapeChar ++ ['"'])

def charLiteral : Char → String
  | '\n' => "\\newline"
  | ' ' => "\\space"
  | '\t' => "\\tab"
  | c => "\\" ++ String.singleton c

end Text

namespace Form

mutual

def render : Form → String
  | .nil => "nil"
  | .bool b => if b then "true" else "false"
  | .long n => toString n.toInt
  | .double d => Double.render d
  | .char c => Text.charLiteral c
  | .str s => Text.quoted s
  | .keyword k => k.render
  | .symbol s _ => s.render
  | .list items _ => "(" ++ renderItems items ++ ")"
  | .vector items _ => "[" ++ renderItems items ++ "]"
  | .set items _ => "#\x7b" ++ renderItems items ++ "\x7d"
  | .map pairs _ => "\x7b" ++ renderPairs pairs ++ "\x7d"

def renderItems : List Form → String
  | [] => ""
  | [x] => render x
  | x :: xs => render x ++ " " ++ renderItems xs

def renderPairs : List (Form × Form) → String
  | [] => ""
  | [(k, v)] => render k ++ " " ++ render v
  | (k, v) :: rest => render k ++ " " ++ render v ++ ", " ++ renderPairs rest

end

end Form

end LispMachine

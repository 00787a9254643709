import LispMachine.Double.Printer
/-!
# Tokens

A token is a word of a text: an atom, a bracket, or one of the marks in front of a form.  Every
token remembers where its first character stands; lines and columns count from one.
-/
namespace LispMachine

/-- A place in a text.  Line and column are kept without the bound that 32 bits would set. -/
structure Pos where
  line : Nat
  column : Nat
  deriving DecidableEq, Repr, Inhabited

namespace Pos

def start : Pos := ⟨1, 1⟩

def next (p : Pos) (c : Char) : Pos :=
  if c = '\n' then ⟨p.line + 1, 1⟩ else ⟨p.line, p.column + 1⟩

def after (p : Pos) (cs : List Char) : Pos := cs.foldl next p

end Pos

inductive Token where
  | nil
  | bool (b : Bool)
  | long (n : Int64)
  | double (d : Float)
  | str (s : String)
  | char (c : Char)
  | keyword (text : String)
  | symbol (text : String)
  | openParen
  | closeParen
  | openBracket
  | closeBracket
  | openBrace
  | closeBrace
  | openSet
  | quote
  | varQuote
  | caret
  | discard
  | eof
  deriving Inhabited

namespace Token

/-- The token as diagnostics show it: strings are not escaped and doubles are plain. -/
def render : Token → String
  | .nil => "nil"
  | .bool b => if b then "true" else "false"
  | .long n => toString n.toInt
  | .double d => Double.plain d
  | .str s => "\"" ++ s ++ "\""
  | .char c => "\\" ++ String.singleton c
  | .keyword k => ":" ++ k
  | .symbol s => s
  | .openParen => "("
  | .closeParen => ")"
  | .openBracket => "["
  | .closeBracket => "]"
  | .openBrace => "\x7b"
  | .closeBrace => "\x7d"
  | .openSet => "#\x7b"
  | .quote => "\x27"
  | .varQuote => "#\x27"
  | .caret => "^"
  | .discard => "#_"
  | .eof => "EOF"

end Token

/-- A token and the place of its first character. -/
structure Located where
  token : Token
  pos : Pos
  deriving Inhabited

end LispMachine

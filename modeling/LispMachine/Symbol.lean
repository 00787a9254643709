import LispMachine.Hash
/-!
# Symbols and keywords

A symbol is a name, possibly qualified by a namespace and written `ns/name`.  A keyword is a symbol
that stands for itself and is written with a colon in front.
-/
namespace LispMachine

structure Symbol where
  ns : Option String
  name : String
  deriving DecidableEq, Repr, Inhabited

namespace Symbol

/-- An unqualified symbol. -/
def plain (name : String) : Symbol := ⟨none, name⟩

def qualified (ns name : String) : Symbol := ⟨some ns, name⟩

/-- Splits at the first slash.  A slash that is the first or the last character belongs to the name,
so `/` alone is the symbol for division. -/
def ofChars (cs : List Char) : Symbol :=
  match cs.span (· != '/') with
  | (c :: before, '/' :: d :: after) =>
    ⟨some (String.ofList (c :: before)), String.ofList (d :: after)⟩
  | _ => ⟨none, String.ofList cs⟩

def parse (text : String) : Symbol := ofChars text.toList

def isQualified (s : Symbol) : Bool := s.ns.isSome

def isPlain (s : Symbol) (name : String) : Bool := s.ns.isNone && s.name == name

def render (s : Symbol) : String :=
  match s.ns with
  | some ns => ns ++ "/" ++ s.name
  | none => s.name

def hash (s : Symbol) : Int32 :=
  Hash.combine (Hash.ofString s.name) ((s.ns.map Hash.ofString).getD 0)

end Symbol

structure Keyword where
  symbol : Symbol
  deriving DecidableEq, Repr, Inhabited

namespace Keyword

def parse (text : String) : Keyword := ⟨Symbol.parse text⟩

def plain (name : String) : Keyword := ⟨Symbol.plain name⟩

def ns (k : Keyword) : Option String := k.symbol.ns

def name (k : Keyword) : String := k.symbol.name

def render (k : Keyword) : String := ":" ++ k.symbol.render

def hash (k : Keyword) : Int32 := k.symbol.hash + Hash.golden.toInt32

end Keyword

end LispMachine

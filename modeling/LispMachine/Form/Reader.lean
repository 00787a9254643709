import LispMachine.Form.Printer
import LispMachine.Token.Lexer
/-!
# Reading forms

The reader turns tokens into forms, one top-level form at a time.  Symbols and collections remember
the place of their first token.  A quote mark in front of a form reads as a list headed by `quote`,
`^` attaches metadata to the form after it, and `#_` drops the form after it.

Main definitions: `ReadError` and its wording, `Form.next?`, `Form.readOne`, `Form.readAll`.
-/
namespace LispMachine

inductive ReadError where
  | endOfInput
  | trailing
  | duplicate (key : Form)
  | oddMap
  | badMetadata
  | badMetadataTarget
  | unmatched (token : Token)
  | unclosed (what : String)

def ReadError.message : ReadError → String
  | .endOfInput => "EOF while reading"
  | .trailing => "trailing input after form"
  | .duplicate key => "Duplicate key: " ++ key.render
  | .oddMap => "Map literal must contain an even number of forms"
  | .badMetadata => "Metadata must be Symbol, Keyword or Map"
  | .badMetadataTarget => "Metadata can only be applied to symbols and collections"
  | .unmatched token => "Unmatched delimiter: " ++ token.render
  | .unclosed what => "EOF while reading " ++ what

inductive SourceError where
  | lex (fault : Fault LexError)
  | read (fault : Fault ReadError)

namespace SourceError

def pos : SourceError → Pos
  | .lex f => f.pos
  | .read f => f.pos

def message : SourceError → String
  | .lex f => f.cause.message
  | .read f => f.cause.message

def display (e : SourceError) : String :=
  (match e with
    | .lex _ => "lexer error at "
    | .read _ => "read error at ")
  ++ toString e.pos.line ++ ":" ++ toString e.pos.column ++ ": " ++ e.message

end SourceError

inductive Bracket where
  | paren
  | square
  | curly

namespace Bracket

def closes : Bracket → Token → Bool
  | .paren, .closeParen => true
  | .square, .closeBracket => true
  | .curly, .closeBrace => true
  | _, _ => false

end Bracket

namespace Form

abbrev ReadResult := Except (Fault ReadError) (Form × List Located)

abbrev ReadItems := Except (Fault ReadError) (List Form × List Located)

def placed (f : Form) (pos : Pos) : Form := f.withInfo (some (Meta.ofPlace pos.line pos.column))

/-- The place of the next token. -/
def posOf : List Located → Pos
  | t :: _ => t.pos
  | [] => .start

def tokenOf : List Located → Token
  | t :: _ => t.token
  | [] => .eof

def repeated? : List Form → List Form → Option Form
  | _, [] => none
  | before, x :: xs => if before.any (· == x) then some x else repeated? (before ++ [x]) xs

def pairUp : List Form → List (Form × Form)
  | k :: v :: rest => (k, v) :: pairUp rest
  | _ => []

def ofSetItems (items : List Form) (pos : Pos) : Except (Fault ReadError) Form :=
  match repeated? [] items with
  | some x => .error ⟨.duplicate x, pos⟩
  | none => .ok (placed (.set items none) pos)

def ofMapItems (items : List Form) (pos : Pos) : Except (Fault ReadError) Form :=
  if items.length % 2 != 0 then .error ⟨.oddMap, pos⟩
  else
    let pairs := pairUp items
    match repeated? [] (pairs.map (·.1)) with
    | some k => .error ⟨.duplicate k, pos⟩
    | none => .ok (placed (.map pairs none) pos)

/-- What `^` puts in front of a form: a type hint, a flag, or whole entries. -/
def metadataOf? : Form → Option Info
  | .symbol s _ => some (Meta.insert {} (kw "tag") (.symbol s none))
  | .keyword k => some (Meta.insert {} (.keyword k) (.bool true))
  | .map pairs _ => some (Meta.ofPairs pairs)
  | _ => none

def annotate (extra : Info) (target : Form) (pos : Pos) : Except (Fault ReadError) Form :=
  if target.isSymbol || target.isCollection then
    .ok (target.withInfo (some ((target.info?.getD {}).merge extra)))
  else .error ⟨.badMetadataTarget, pos⟩

mutual

/-- Reads one form.  The first argument bounds the nesting and is never reached, since every call
has passed a token since its caller started. -/
def read : Nat → List Located → ReadResult
  | 0, ts => .error ⟨.endOfInput, posOf ts⟩
  | fuel + 1, ts =>
    let pos := posOf ts
    let rest := ts.tail
    match tokenOf ts with
    | .nil => .ok (.nil, rest)
    | .bool b => .ok (.bool b, rest)
    | .long n => .ok (.long n, rest)
    | .double d => .ok (.double d, rest)
    | .char c => .ok (.char c, rest)
    | .str s => .ok (.str s, rest)
    | .keyword k => .ok (.keyword (Keyword.parse k), rest)
    | .symbol s => .ok (placed (.symbol (Symbol.parse s) none) pos, rest)
    | .openParen => do
      let (items, rest) ← readItems fuel .paren "list" pos rest
      return (placed (.list items none) pos, rest)
    | .openBracket => do
      let (items, rest) ← readItems fuel .square "vector" pos rest
      return (placed (.vector items none) pos, rest)
    | .openSet => do
      let (items, rest) ← readItems fuel .curly "set" pos rest
      return (← ofSetItems items pos, rest)
    | .openBrace => do
      let (items, rest) ← readItems fuel .curly "map" pos rest
      return (← ofMapItems items pos, rest)
    | .quote => do
      let (quoted, rest) ← readOperand fuel pos rest
      return (placed (.list [sym "quote", quoted] none) pos, rest)
    | .varQuote => do
      let (target, rest) ← readOperand fuel pos rest
      return (placed (.list [sym "var", target] none) pos, rest)
    | .caret => do
      let (data, rest) ← readOperand fuel pos rest
      match metadataOf? data with
      | none => .error ⟨.badMetadata, pos⟩
      | some extra => do
        let (target, rest) ← readOperand fuel pos rest
        return (← annotate extra target pos, rest)
    | .discard => do
      let (_, rest) ← read fuel rest
      read fuel rest
    | .eof => .error ⟨.endOfInput, pos⟩
    | .closeParen => .error ⟨.unmatched .closeParen, pos⟩
    | .closeBracket => .error ⟨.unmatched .closeBracket, pos⟩
    | .closeBrace => .error ⟨.unmatched .closeBrace, pos⟩

/-- The form that a mark stands in front of; a text that ends here is reported at the mark. -/
def readOperand : Nat → Pos → List Located → ReadResult
  | 0, pos, _ => .error ⟨.endOfInput, pos⟩
  | fuel + 1, pos, ts =>
    match tokenOf ts with
    | .eof => .error ⟨.endOfInput, pos⟩
    | _ => read fuel ts

/-- Reads items up to the closing bracket; a bracket that is never closed is reported where it was
opened. -/
def readItems : Nat → Bracket → String → Pos → List Located → ReadItems
  | 0, _, what, start, _ => .error ⟨.unclosed what, start⟩
  | fuel + 1, bracket, what, start, ts =>
    let token := tokenOf ts
    if bracket.closes token then .ok ([], ts.tail)
    else
      match token with
      | .eof => .error ⟨.unclosed what, start⟩
      | .discard => do
        let (_, rest) ← read fuel ts.tail
        readItems fuel bracket what start rest
      | _ => do
        let (item, rest) ← read fuel ts
        let (items, rest) ← readItems fuel bracket what start rest
        return (item :: items, rest)

end

/-- More than any nesting of calls over these tokens. -/
def readFuel (ts : List Located) : Nat := 2 * ts.length + 2

/-- The next top-level form and the tokens after it; none at the end of the text.  The first
argument bounds the number of dropped forms. -/
def nextWithin : Nat → List Located → Except (Fault ReadError) (Option Form × List Located)
  | 0, ts => .ok (none, ts)
  | fuel + 1, ts =>
    match tokenOf ts with
    | .eof => .ok (none, ts)
    | .discard => do
      let (_, rest) ← read (readFuel ts) ts.tail
      nextWithin fuel rest
    | _ => do
      let (form, rest) ← read (readFuel ts) ts
      return (some form, rest)

def next? (ts : List Located) : Except (Fault ReadError) (Option Form × List Located) :=
  nextWithin (ts.length + 1) ts

/-- All top-level forms up to the end or the first fault. -/
def readEachWithin : Nat → List Located → List Form × Option (Fault ReadError)
  | 0, _ => ([], none)
  | fuel + 1, ts =>
    match next? ts with
    | .error fault => ([], some fault)
    | .ok (none, _) => ([], none)
    | .ok (some form, rest) =>
      let (forms, fault) := readEachWithin fuel rest
      (form :: forms, fault)

/-- The top-level forms of a text in front of the first fault, and that fault. -/
def readEach (ts : List Located) : List Form × Option (Fault ReadError) :=
  readEachWithin (ts.length + 1) ts

/-- Exactly one form from tokens; anything after it is refused. -/
def readSingle (ts : List Located) : Except (Fault ReadError) Form := do
  match ← next? ts with
  | (none, _) => .error ⟨.endOfInput, posOf ts⟩
  | (some form, rest) =>
    match ← next? rest with
    | (none, _) => return form
    | (some _, rest) => .error ⟨.trailing, posOf rest⟩

def tokensOf (source : String) : Except SourceError (List Located) :=
  (Token.tokenize source).mapError .lex

/-- Exactly one form. -/
def readOne (source : String) : Except SourceError Form := do
  let ts ← tokensOf source
  (readSingle ts).mapError .read

/-- Every top-level form, or the first fault. -/
def readAll (source : String) : Except SourceError (List Form) := do
  match readEach (← tokensOf source) with
  | (_, some fault) => .error (.read fault)
  | (forms, none) => return forms

end Form

end LispMachine

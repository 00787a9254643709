import LispMachine.Token.Basic
import LispMachine.Double.Reader
import LispMachine.Text.Alphabetic
import LispMachine.Text.Numeric
import LispMachine.Text.Blank
/-!
# Cutting a text into tokens

`scan` finds the token at the head of a text and says which characters it is written with; blanks,
commas and comments between tokens are skipped by `skipBlanks`.  Neither looks at places: a place is
computed afterwards from the characters that were passed, so the same text gives the same tokens
wherever it stands.

Main definitions: `LexError` and its wording, `scan`, `tokenize`.
-/
namespace LispMachine

inductive LexError where
  | noDispatch (c : Char)
  | endAfterHash
  | unexpected (c : Char)
  | badEscape (c : Char)
  | openString
  | badCharacter (name : String)
  | badKeyword (name : String)
  | badNumber (text : String)
  deriving DecidableEq, Repr

def LexError.message : LexError → String
  | .noDispatch c => "No dispatch macro for: " ++ String.singleton c
  | .endAfterHash => "EOF after \x27#\x27"
  | .unexpected c => "unexpected character: \x27" ++ String.singleton c ++ "\x27"
  | .badEscape c => "Unsupported escape character: \\" ++ String.singleton c
  | .openString => "EOF while reading string"
  | .badCharacter name => "Unsupported character: \\" ++ name
  | .badKeyword name => "Invalid token: :" ++ name
  | .badNumber text => "Invalid number: " ++ text

/-- A cause and the place where it was noticed. -/
structure Fault (ε : Type) where
  cause : ε
  pos : Pos

namespace Token

/-! ## Classes of characters -/

def isSymbolStart (c : Char) : Bool :=
  Text.isAlphabetic c || "_*/!?<>=&.%$|".toList.contains c

def isSymbolPart (c : Char) : Bool :=
  isSymbolStart c || c.isDigit || "-+\x27:#".toList.contains c

def isWordPart (c : Char) : Bool := Text.isAlphabetic c || Text.isNumeric c

/-! ## Blanks and comments -/

/-- A comment runs to the end of its line. -/
def skipComment : List Char → List Char
  | [] => []
  | c :: cs => if c = '\n' then cs else skipComment cs

theorem skipComment_length (cs : List Char) : (skipComment cs).length ≤ cs.length := by
  induction cs with
  | nil => simp [skipComment]
  | cons c cs ih =>
    unfold skipComment
    split
    · simp
    · simp only [List.length_cons]; omega

/-- Drops blanks, commas and comments at the head of a text. -/
def skipBlanks : List Char → List Char
  | [] => []
  | c :: cs =>
    if Text.isBlank c || c = ',' then skipBlanks cs
    else if c = ';' then skipBlanks (skipComment cs)
    else c :: cs
termination_by cs => cs.length
decreasing_by
  · simp
  · have := skipComment_length cs
    simp only [List.length_cons]; omega

/-! ## Single tokens

Each scanner returns the token and the text behind it. -/

/-- Why no token was found; the second text, if there is one, starts where the fault was noticed. -/
structure ScanError where
  cause : LexError
  noticed : Option (List Char) := none

abbrev Scanned := Except ScanError (Token × List Char)

/-- The rest of a string literal, after its opening quote. -/
def scanString : List Char → List Char → Scanned
  | _, [] => .error { cause := .openString }
  | acc, '"' :: rest => .ok (.str (String.ofList acc.reverse), rest)
  | _, ['\\'] => .error { cause := .openString }
  | acc, '\\' :: c :: rest =>
    match c with
    | 'n' => scanString ('\n' :: acc) rest
    | 'r' => scanString ('\r' :: acc) rest
    | 't' => scanString ('\t' :: acc) rest
    | '\\' => scanString ('\\' :: acc) rest
    | '"' => scanString ('"' :: acc) rest
    | c => .error { cause := .badEscape c, noticed := some rest }
  | acc, c :: rest => scanString (c :: acc) rest

def namedChar? (name : List Char) : Option Char :=
  match String.ofList name with
  | "newline" => some '\n'
  | "space" => some ' '
  | "tab" => some '\t'
  | "return" => some '\r'
  | _ =>
    match name with
    | [c] => some c
    | _ => none

/-- A character literal, after its backslash: one character of any kind and the letters and numerals
that follow it. -/
def scanChar (cs : List Char) : Scanned :=
  let (name, rest) : List Char × List Char :=
    match cs with
    | [] => ([], [])
    | c :: cs => (c :: cs.takeWhile isWordPart, cs.dropWhile isWordPart)
  match namedChar? name with
  | some c => .ok (.char c, rest)
  | none => .error { cause := .badCharacter (String.ofList name) }

/-- A keyword, after its colon. -/
def scanKeyword (cs : List Char) : Scanned :=
  let name := cs.takeWhile isSymbolPart
  if name.isEmpty || name.head? == some ':' || name.getLast? == some '/' then
    .error { cause := .badKeyword (String.ofList name) }
  else .ok (.keyword (String.ofList name), cs.dropWhile isSymbolPart)

def ofName (name : String) : Token :=
  match name with
  | "nil" => .nil
  | "true" => .bool true
  | "false" => .bool false
  | _ => .symbol name

def scanSymbol (cs : List Char) : Token × List Char :=
  (ofName (String.ofList (cs.takeWhile isSymbolPart)), cs.dropWhile isSymbolPart)

/-- The characters of a number: digits, one point, and exponent marks with their signs.  A character
that could continue a symbol is taken too, and `bad` is then set. -/
structure Numeral where
  text : List Char
  isDouble : Bool
  bad : Bool
  rest : List Char

def Numeral.cons (n : Numeral) (c : Char) : Numeral := { n with text := c :: n.text }

/-- The numeral at the head of a text; `seen` says whether a point or an exponent mark came
before. -/
def spanNumeral (seen : Bool) : List Char → Numeral
  | [] => ⟨[], seen, false, []⟩
  | c :: cs =>
    if c.isDigit then (spanNumeral seen cs).cons c
    else if c = '.' && !seen then (spanNumeral true cs).cons c
    else if c = 'e' || c = 'E' then
      match cs with
      | '+' :: cs' => ((spanNumeral true cs').cons '+').cons c
      | '-' :: cs' => ((spanNumeral true cs').cons '-').cons c
      | cs' => (spanNumeral true cs').cons c
    else if isSymbolPart c then ⟨[c], seen, true, cs⟩
    else ⟨[], seen, false, c :: cs⟩

def longOf? (negative : Bool) (digits : List Char) : Option Int64 :=
  let n := Double.digitsValue digits
  if negative then
    if n ≤ Nat.pow 2 63 then some (Int64.ofInt (-Int.ofNat n)) else none
  else if n < Nat.pow 2 63 then some (Int64.ofNat n) else none

/-- A number, after its sign. -/
def scanNumber (negative : Bool) (cs : List Char) : Scanned :=
  let n := spanNumeral false cs
  let text := String.ofList (if negative then '-' :: n.text else n.text)
  let wrong : Scanned := .error { cause := .badNumber text }
  if n.bad then wrong
  else if n.isDouble then
    match Double.read? text with
    | some d => .ok (.double d, n.rest)
    | none => wrong
  else
    match longOf? negative n.text with
    | some k => .ok (.long k, n.rest)
    | none => wrong

def scanHash : List Char → Scanned
  | [] => .error { cause := .endAfterHash }
  | c :: rest =>
    if c = '\x7b' then .ok (.openSet, rest)
    else if c = '\x27' then .ok (.varQuote, rest)
    else if c = '_' then .ok (.discard, rest)
    else .error { cause := .noDispatch c }

def startsWithDigit : List Char → Bool
  | c :: _ => c.isDigit
  | [] => false

/-- The token at the head of a text that starts with no blank. -/
def scan : List Char → Scanned
  | [] => .ok (.eof, [])
  | c :: cs =>
    if c = '(' then .ok (.openParen, cs)
    else if c = ')' then .ok (.closeParen, cs)
    else if c = '[' then .ok (.openBracket, cs)
    else if c = ']' then .ok (.closeBracket, cs)
    else if c = '\x7b' then .ok (.openBrace, cs)
    else if c = '\x7d' then .ok (.closeBrace, cs)
    else if c = '\x27' then .ok (.quote, cs)
    else if c = '^' then .ok (.caret, cs)
    else if c = '#' then scanHash cs
    else if c = '"' then scanString [] cs
    else if c = '\\' then scanChar cs
    else if c = ':' then scanKeyword cs
    else if c = '-' || c = '+' then
      if startsWithDigit cs then scanNumber (c = '-') cs else .ok (scanSymbol (c :: cs))
    else if c.isDigit then scanNumber false (c :: cs)
    else if isSymbolStart c then .ok (scanSymbol (c :: cs))
    else .error { cause := .unexpected c }

/-! ## Whole texts -/

/-- The part of a text in front of one of its ends. -/
def passed (text rest : List Char) : List Char := text.take (text.length - rest.length)

/-- The tokens of a text in order, and the fault that stopped the scan, if one did.  The first
argument bounds the number of tokens. -/
def scanAll : Nat → Pos → List Char → List Located × Option (Fault LexError)
  | 0, _, _ => ([], none)
  | fuel + 1, pos, cs =>
    let text := skipBlanks cs
    let pos := pos.after (passed cs text)
    match scan text with
    | .error e =>
      ([], some ⟨e.cause, match e.noticed with
        | some rest => pos.after (passed text rest)
        | none => pos⟩)
    | .ok (.eof, _) => ([⟨.eof, pos⟩], none)
    | .ok (token, rest) =>
      let (tokens, fault) := scanAll fuel (pos.after (passed text rest)) rest
      (⟨token, pos⟩ :: tokens, fault)

/-- The tokens in front of the first fault, and that fault. -/
def scanText (source : String) : List Located × Option (Fault LexError) :=
  let cs := source.toList
  scanAll (cs.length + 1) .start cs

/-- All tokens of a text; the last one marks its end. -/
def tokenize (source : String) : Except (Fault LexError) (List Located) :=
  match scanText source with
  | (_, some fault) => .error fault
  | (tokens, none) => .ok tokens

end Token

end LispMachine

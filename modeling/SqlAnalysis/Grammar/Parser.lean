import SqlAnalysis.Completion.Hint
import SqlAnalysis.Diagnostic.Basic
import SqlAnalysis.Syntax.Ident
import SqlAnalysis.Token.Basic

/-!
# Parsers

A parser reads tokens from the front of a list and either gives a result or
fails with one diagnostic. In both cases it leaves the tokens it has not read
and the completion hints it has recorded.
-/
namespace SqlAnalysis

/-- What a parser works on. -/
structure ParserState where
  /-- The tokens still to be read; blanks, comments and the end are left out. -/
  tokens : List Token
  /-- The token at the end of the text. -/
  final : Token
  /-- Span and end of the token read last. -/
  lastSpan : Span
  lastStop : Position
  hints : List Hint
deriving Inhabited

/-- A parser of `α`. -/
abbrev Parser := ExceptT Diagnostic (StateM ParserState)

namespace ParserState

/-- The token at the end of a list that lacks one, right after the last token. -/
def finalAfter (tokens : List Token) : Token :=
  match tokens.getLast? with
  | some t => ⟨.eof, ⟨t.span.stop, t.span.stop⟩, t.stop, t.stop, none⟩
  | none => ⟨.eof, Span.zero, ⟨0, 0⟩, ⟨0, 0⟩, none⟩

/-- The state before anything is read. Reading stops at the first end token. -/
def start (tokens : List Token) : ParserState where
  tokens := tokens.filter (fun t => !t.kind.isTrivia) |>.takeWhile fun t => t.kind ≠ .eof
  final := (tokens.find? fun t => t.kind = .eof).getD (finalAfter tokens)
  lastSpan := Span.zero
  lastStop := ⟨0, 0⟩
  hints := []

/-- The next token. -/
def current (s : ParserState) : Token :=
  s.tokens.headD s.final

/-- The kind of the token `n` places ahead. -/
def kindAt (s : ParserState) (n : Nat) : TokenKind :=
  match s.tokens[n]? with
  | some t => t.kind
  | none => .eof

/-- The state after the next token; at the end nothing changes. -/
def advance (s : ParserState) : ParserState :=
  match s.tokens with
  | [] => s
  | t :: ts => { s with tokens := ts, lastSpan := t.span, lastStop := t.stop }

/-- The complaint that something else stands where `what` should. -/
def expected (s : ParserState) (what : String) : Diagnostic :=
  .grammatical s!"expected {what}, found {s.current.kind.describe}" s.current.range

end ParserState

namespace Parser

def run (p : Parser α) (s : ParserState) : Except Diagnostic α × ParserState :=
  (ExceptT.run p).run s

def current : Parser Token := return (← get).current

/-- The kind of the next token. -/
def peek : Parser TokenKind := return (← get).kindAt 0

/-- The kind of the token `n` places ahead. -/
def peekAt (n : Nat) : Parser TokenKind := return (← get).kindAt n

/-- Reads the next token. -/
def advance : Parser Token := do
  let s ← get
  set s.advance
  return s.current

/-- Whether the next token is of a kind. -/
def check (kind : TokenKind) : Parser Bool := return (← peek) = kind

/-- Whether the next token is a keyword. -/
def checkWord (word : Keyword) : Parser Bool := check (.keyword word)

/-- Reads the next token if it is of a kind, and tells whether it was. -/
def eat (kind : TokenKind) : Parser Bool := do
  if ← check kind then
    let _ ← advance
    return true
  else
    return false

def eatWord (word : Keyword) : Parser Bool := eat (.keyword word)

/-- Fails because something else stands where `what` should. -/
def failExpected (what : String) : Parser α := do
  throw ((← get).expected what)

/-- Reads a token of a kind or fails. -/
def expect (kind : TokenKind) (what : String) : Parser Token := do
  if ← check kind then advance else failExpected what

def expectWord (word : Keyword) : Parser Token :=
  expect (.keyword word) word.spelling

/-- The span from `start` to the end of the token read last. -/
def spanFrom (start : Span) : Parser Span := do
  return ⟨start.start, max (← get).lastSpan.stop start.stop⟩

/-- Runs `p` as often as it gives something, but no more than `n` times. -/
def manyUpTo (p : Parser (Option α)) : Nat → Parser (List α)
  | 0 => return []
  | n + 1 => do
    match ← p with
    | some a => return a :: (← manyUpTo p n)
    | none => return []

/-- Runs `p` until it gives nothing. It must read a token whenever it gives
something, so that one round more than there are tokens is enough. -/
def many (p : Parser (Option α)) : Parser (List α) := do
  manyUpTo p ((← get).tokens.length + 1)

/-- Runs `p` after a token of a kind, if that is the next one. -/
def after (kind : TokenKind) (p : Parser α) : Parser (Option α) := do
  if ← eat kind then return some (← p) else return none

def afterWord (word : Keyword) (p : Parser α) : Parser (Option α) :=
  after (.keyword word) p

/-- One or more of `p` with commas between them. -/
def commaSeparated (p : Parser α) : Parser (List α) := do
  let first ← p
  let rest ← many (after .comma p)
  return first :: rest

/-- What `p` reads, or nothing right before a closing bracket. -/
def unlessClosing (p : Parser (List α)) : Parser (List α) := do
  if ← check .rightParen then return [] else p

/-! ### Hints -/

/-- A hint that starts right after the token read last. -/
def hint : Parser Hint := return Hint.startingAt (← get).lastStop

/-- A hint that offers all columns and some keywords. -/
def columnsHint (keywords : List String) : Parser Hint := do
  return { (← hint) with columns := .all, keywords := keywords }

/-- A hint that offers tables. -/
def tablesHint : Parser Hint := return { (← hint) with tables := true }

/-- A hint that offers the columns of a table. -/
def columnsOfHint (table : Ident) : Parser Hint := do
  return { (← hint) with columns := .table table.name }

def keywordsHint (keywords : List String) : Parser Hint := do
  return { (← hint) with keywords := keywords }

/-- Where a hint ends: before the first token that is left, or with the failure. -/
def hintStop (after : ParserState) : Except Diagnostic α → Position
  | .ok _ => after.current.start
  | .error d => d.range.stop

/-- Records a hint for what `p` reads. Hints recorded by `p` come after it. -/
def under (h : Hint) (p : Parser α) : Parser α := ExceptT.mk fun s =>
  let (result, s') := p.run { s with hints := [] }
  (result, { s' with hints := s.hints ++ h.closedAt (hintStop s' result) :: s'.hints })

/-! ### Names -/

/-- The name that a token can stand for, and whether it was quoted. -/
def nameOf? : TokenKind → Option (String × Bool)
  | .name text => some (text, false)
  | .quotedName text => some (text, true)
  | .keyword word => if word.isSoft then some (Text.foldCase word.spelling, false) else none
  | _ => none

/-- Whether a token can stand for a name. -/
def isNameStart (kind : TokenKind) : Bool :=
  (nameOf? kind).isSome

/-- Whether a token is a name and no keyword. -/
def isOwnName : TokenKind → Bool
  | .name _ | .quotedName _ => true
  | _ => false

def ident : Parser Ident := do
  let t ← current
  match nameOf? t.kind with
  | some (name, quoted) =>
    let _ ← advance
    return ⟨name, quoted, t.span⟩
  | none => failExpected "identifier"

/-- Names in brackets. -/
def identList : Parser (List Ident) := do
  let _ ← expect .leftParen "'('"
  let idents ← commaSeparated ident
  let _ ← expect .rightParen "')'"
  return idents

/-- An alias. Without `AS` no keyword is taken for one. -/
def alias? : Parser (Option Ident) := do
  if ← eatWord .AS then
    return some (← ident)
  else if isOwnName (← peek) then
    return some (← ident)
  else
    return none

end Parser
end SqlAnalysis

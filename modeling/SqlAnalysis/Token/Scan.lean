import SqlAnalysis.Text.Number
import SqlAnalysis.Token.Basic

/-!
# Scanning one token

A token is recognized by its first character and those that follow. A scan
tells how many of the following characters belong to the token, so a token is
never empty and what comes after it is what is left over. Every character that
means something to a scan is ASCII; all others are part of names.
-/
namespace SqlAnalysis

/-- What begins at some place of a text. -/
structure Scan where
  /-- Nothing if the first character begins no token; it is then skipped. -/
  kind : Option TokenKind
  /-- The number of characters after the first. -/
  extra : Nat
  /-- What is wrong with the token. -/
  problem : Option String := none
deriving DecidableEq, Inhabited

namespace Scan

def token (kind : TokenKind) (extra : Nat) : Scan := ⟨some kind, extra, none⟩

/-! ### Blanks and comments -/

/-- The length of a run of blanks; a carriage return before a newline is not
one of them. -/
def blanks : List Char → Nat
  | [] => 0
  | c :: cs =>
    if c = ' ' ∨ c = '\t' ∨ c = '\x0c' ∨ (c = '\r' ∧ cs.head? ≠ some '\n') then blanks cs + 1
    else 0

/-- The length of the rest of a line. -/
def lineRest (cs : List Char) : Nat :=
  (cs.takeWhile fun c => c ≠ '\n' && c ≠ '\r').length

/-- The length of a block comment after its opening, and whether it is closed. -/
def blockRest : List Char → Nat × Bool
  | [] => (0, false)
  | '*' :: '/' :: _ => (2, true)
  | _ :: cs => let (n, closed) := blockRest cs; (n + 1, closed)

/-! ### Quoted texts -/

/-- What stands between quotes: its content, its length with the closing quote,
and whether there is a closing quote. -/
structure Quoted where
  content : List Char
  length : Nat
  closed : Bool
deriving DecidableEq, Inhabited

/-- One character of content that is written with `width` characters. -/
def Quoted.cons (c : Char) (width : Nat) (q : Quoted) : Quoted :=
  ⟨c :: q.content, q.length + width, q.closed⟩

/-- The character for which an escape after a backslash stands. -/
def unescape? : Char → Option Char
  | 'n' => some '\n'
  | 'r' => some '\r'
  | 't' => some '\t'
  | '\x22' => some '\x22'
  | '\x27' => some '\x27'
  | '\x5c' => some '\x5c'
  | _ => none

/-- A string after its opening quote. A quote is written twice or after a
backslash; a backslash before any other character stands for itself. -/
def stringRest : List Char → Quoted
  | [] => ⟨[], 0, false⟩
  | '\x27' :: '\x27' :: cs => (stringRest cs).cons '\x27' 2
  | '\x27' :: _ => ⟨[], 1, true⟩
  | '\x5c' :: e :: cs =>
    match unescape? e with
    | some c => (stringRest cs).cons c 2
    | none => (stringRest (e :: cs)).cons '\x5c' 1
  | c :: cs => (stringRest cs).cons c 1

/-- A name after its opening quote, with that quote written twice inside it. -/
def nameRest (quote : Char) : List Char → Quoted
  | [] => ⟨[], 0, false⟩
  | [c] => if c = quote then ⟨[], 1, true⟩ else ⟨[c], 1, false⟩
  | c :: d :: cs =>
    if c = quote then
      if d = quote then (nameRest quote cs).cons quote 2 else ⟨[], 1, true⟩
    else
      (nameRest quote (d :: cs)).cons c 1

/-- A name after its opening bracket. It cannot hold a closing one. -/
def bracketRest : List Char → Quoted
  | [] => ⟨[], 0, false⟩
  | c :: cs => if c = ']' then ⟨[], 1, true⟩ else (bracketRest cs).cons c 1

/-- The kind of a quoted text. -/
def textKind : List Char → TokenKind
  | [c] => .character c
  | cs => .string (String.ofList cs)

def string (cs : List Char) : Scan :=
  let q := stringRest cs
  ⟨some (textKind q.content), q.length, if q.closed then none else some "unterminated string"⟩

def quotedName (q : Quoted) : Scan :=
  ⟨some (.quotedName (String.ofList q.content)), q.length,
    if q.closed then none else some "unterminated quoted identifier"⟩

def blockComment (cs : List Char) : Scan :=
  let (n, closed) := blockRest cs
  ⟨some .blockComment, n + 1, if closed then none else some "unterminated comment"⟩

/-! ### Numbers -/

/-- The length of a fraction with its point. A point before a letter is no
part of a number. -/
def fractionLength : List Char → Nat
  | '.' :: c :: cs =>
    if Text.isLetter c || c = '_' then 0 else 1 + ((c :: cs).takeWhile Text.isDigit).length
  | ['.'] => 1
  | _ => 0

/-- The length of an exponent with its mark. Without a digit there is none. -/
def exponentLength : List Char → Nat
  | mark :: cs =>
    if mark = 'e' ∨ mark = 'E' then
      let signed := cs.head? = some '+' ∨ cs.head? = some '-'
      let ds := (if signed then cs.drop 1 else cs).takeWhile Text.isDigit
      if ds = [] then 0 else (if signed then 2 else 1) + ds.length
    else 0
  | [] => 0

/-- The largest integer that is kept exact. -/
def maxInteger : Nat := 9223372036854775807

/-- The kind of a number with the given text. Integers that are too large are
floating-point numbers. -/
def numberKind (text : List Char) : TokenKind :=
  match (Text.natural? text).filter (· ≤ maxInteger) with
  | some n => .integer n
  | none => .float ((Binary64.unsigned? false text).getD (.infinite false))

/-- A number at the beginning of the text. -/
def number (cs : List Char) : Scan :=
  let whole := (cs.takeWhile Text.isDigit).length
  let fraction := fractionLength (cs.drop whole)
  let exponent := exponentLength (cs.drop (whole + fraction))
  let length := whole + fraction + exponent
  token (numberKind (cs.take length)) (length - 1)

/-! ### Names and operators -/

/-- The characters that begin a name. -/
def isNameStart (c : Char) : Bool :=
  Text.isLetter c || c = '_' || decide (0x80 ≤ c.toNat)

/-- The characters of a name. -/
def isNameChar (c : Char) : Bool :=
  isNameStart c || Text.isDigit c

/-- A word: a keyword, or else a name. -/
def wordKind (word : List Char) : TokenKind :=
  let text := String.ofList word
  match Keyword.ofWord? text with
  | some k => .keyword k
  | none => .name text

def word (c : Char) (cs : List Char) : Scan :=
  let more := cs.takeWhile isNameChar
  token (wordKind (c :: more)) more.length

/-- The operators and marks, by their first character and the one after it. -/
def symbol? (c : Char) (next : Option Char) : Option (TokenKind × Nat) :=
  match c, next with
  | '(', _ => some (.leftParen, 0)
  | ')', _ => some (.rightParen, 0)
  | '+', _ => some (.plus, 0)
  | '-', _ => some (.minus, 0)
  | '*', _ => some (.star, 0)
  | '/', _ => some (.slash, 0)
  | '%', _ => some (.percent, 0)
  | ',', _ => some (.comma, 0)
  | ';', _ => some (.semicolon, 0)
  | '.', _ => some (.dot, 0)
  | '<', some '=' => some (.le, 1)
  | '<', some '>' => some (.notEq, 1)
  | '<', _ => some (.lt, 0)
  | '>', some '=' => some (.ge, 1)
  | '>', _ => some (.gt, 0)
  | '=', some '=' => some (.eq, 1)
  | '=', _ => some (.eq, 0)
  | '!', some '=' => some (.notEq, 1)
  | '|', some '|' => some (.concat, 1)
  | _, _ => none

/-- An operator or mark, or a character that begins no token. -/
def symbol (c : Char) (cs : List Char) : Scan :=
  match symbol? c cs.head? with
  | some (kind, extra) => token kind extra
  | none => ⟨none, 0, some ("unrecognized character '" ++ c.toString ++ "'")⟩

/-- Whether the two characters begin a number. -/
def startsNumber (c : Char) (next : Option Char) : Bool :=
  Text.isDigit c || (c = '.' && next.any Text.isDigit)

/-- What begins with `c` and goes on with `cs`. -/
def scan (c : Char) (cs : List Char) : Scan :=
  let next := cs.head?
  if c = '\n' then token .newline 0
  else if c = '\r' ∧ next = some '\n' then token .newline 1
  else if c = ' ' ∨ c = '\t' ∨ c = '\r' ∨ c = '\x0c' then token .whitespace (blanks cs)
  else if c = '-' ∧ next = some '-' then token .lineComment (lineRest cs)
  else if c = '/' ∧ next = some '*' then blockComment (cs.drop 1)
  else if c = '\x27' then string cs
  else if c = '\x22' ∨ c = '\x60' then quotedName (nameRest c cs)
  else if c = '[' then quotedName (bracketRest cs)
  else if startsNumber c next then number (c :: cs)
  else if isNameStart c then word c cs
  else symbol c cs

end Scan
end SqlAnalysis

import SqlAnalysis.Diagnostic.Basic
import SqlAnalysis.Text.Bytes
import SqlAnalysis.Token.Scan

/-!
# Tokens of a source text

The scans of a text one after the other, each with its place. Bad input never
stops them: it is reported and skipped.
-/
namespace SqlAnalysis

/-- The position after some characters. -/
def Position.after (p : Position) : List Char → Position
  | [] => p
  | c :: cs =>
    if c = '\n' then Position.after ⟨p.line + 1, 0⟩ cs
    else Position.after ⟨p.line, p.column + c.utf8Size⟩ cs

/-- What is lexically wrong with the parentheses of a text. -/
inductive BracketFault where
  /-- The first closing one with no open one before it. -/
  | unmatched (place : Position)
  /-- The last opening one that is never closed. -/
  | unclosed (place : Position)
deriving DecidableEq, Inhabited

namespace BracketFault

def place : BracketFault → Position
  | .unmatched p => p
  | .unclosed p => p

def message : BracketFault → String
  | .unmatched p => s!"unmatched ')' at line {p.line + 1}, column {p.column + 1}"
  | .unclosed p => s!"unclosed '(' opened at line {p.line + 1}, column {p.column + 1}"

/-- The fault as a diagnostic about the one parenthesis. -/
def diagnostic (fault : BracketFault) : Diagnostic :=
  let p := fault.place
  .lexical fault.message ⟨p, ⟨p.line, p.column + 1⟩⟩

/-- Matches parentheses from left to right, with the open ones on a stack. A
closing one without partner is kept as the first of its kind and passed over. -/
def find (opened : List Position) (stray : Option Position) : List Token → Option BracketFault
  | [] =>
    match stray with
    | some p => some (.unmatched p)
    | none => opened.head?.map .unclosed
  | t :: ts =>
    if t.kind = .leftParen then
      find (t.start :: opened) stray ts
    else if t.kind = .rightParen then
      match opened with
      | _ :: opened => find opened stray ts
      | [] => find [] (stray <|> some t.start) ts
    else
      find opened stray ts

end BracketFault

/-- The tokens of a text with what was found wrong on the way. -/
structure Lexed where
  /-- All tokens, blanks and comments included, up to the end of the text. -/
  tokens : List Token
  errors : List Diagnostic
  bracketFault : Option BracketFault
deriving Inhabited

namespace Lexed

/-- The comment that waits for the next token after `t`. -/
def pendingAfter (pending : Option Span) (t : Token) : Option Span :=
  if t.kind.isComment then some t.span
  else if t.kind.isTrivia then pending
  else none

/-- The tokens and errors of the text from some place on. -/
def lexFrom (offset : Nat) (here : Position) (pending : Option Span) :
    List Char → List Token × List Diagnostic
  | [] => ([⟨.eof, ⟨offset, offset⟩, here, here, none⟩], [])
  | c :: cs =>
    let s := Scan.scan c cs
    let taken := c :: cs.take s.extra
    let stop := offset + Text.byteLength taken
    let there := here.after taken
    let problems := s.problem.toList.map fun message => Diagnostic.lexical message ⟨here, there⟩
    match s.kind with
    | none =>
      let (tokens, errors) := lexFrom stop there pending (cs.drop s.extra)
      (tokens, problems ++ errors)
    | some kind =>
      let comment := if kind.isTrivia then none else pending
      let t : Token := ⟨kind, ⟨offset, stop⟩, here, there, comment⟩
      let (tokens, errors) := lexFrom stop there (pendingAfter pending t) (cs.drop s.extra)
      (t :: tokens, problems ++ errors)
termination_by cs => cs.length
decreasing_by all_goals simp only [List.length_drop, List.length_cons]; omega

/-- Cuts a source text into tokens. -/
def ofText (source : String) : Lexed :=
  let (tokens, errors) := lexFrom 0 ⟨0, 0⟩ none source.toList
  let fault := BracketFault.find [] none tokens
  ⟨tokens, errors ++ fault.toList.map BracketFault.diagnostic, fault⟩

/-- The tokens that the grammar sees. -/
def significant (lexed : Lexed) : List Token :=
  lexed.tokens.filter fun t => !t.kind.isTrivia

end Lexed
end SqlAnalysis

import SqlAnalysis.Grammar.Definition
import SqlAnalysis.Token.Lexer

/-!
# Reading whole scripts

A script is a sequence of statements with semicolons between them. A statement
that cannot be read leaves one diagnostic, and reading goes on at the next
semicolon or at the next keyword that begins a statement.
-/
namespace SqlAnalysis

namespace Parser

def statementBody : Parser StatementBody := do
  match ← peek with
  | .keyword .SELECT => return .select (← select)
  | .keyword .INSERT => return .insert (← insert)
  | .keyword .UPDATE => return .update (← update)
  | .keyword .DELETE => return .delete (← delete)
  | .keyword .CREATE => return .createTable (← createTable)
  | .keyword .ALTER => return .alterTable (← alterTable)
  | .keyword .DROP => return .dropTable (← dropTable)
  | _ => failExpected "statement"

def statement : Parser Statement := do
  let first ← current
  let body ← statementBody
  return ⟨body, ← spanFrom first.span, first.leadingComment⟩

end Parser

namespace ParserState

theorem length_advance_le (s : ParserState) : s.advance.tokens.length ≤ s.tokens.length := by
  cases h : s.tokens <;> simp [advance, h]

/-- The state with its next tokens left out as long as they have a property. -/
def skipWhile (p : TokenKind → Bool) (s : ParserState) : ParserState :=
  (s.tokens.takeWhile fun t => p t.kind).foldl (fun s _ => s.advance) s

theorem length_skip_le (skipped : List Token) (s : ParserState) :
    (skipped.foldl (fun s _ => s.advance) s).tokens.length ≤ s.tokens.length := by
  induction skipped generalizing s with
  | nil => exact Nat.le_refl _
  | cons t ts ih => exact Nat.le_trans (ih s.advance) s.length_advance_le

/-- The state after a round that began at `s` and ended at `after`: one token at
least is read. -/
def orSkip (s after : ParserState) : ParserState :=
  if after.tokens.length < s.tokens.length then after
  else { s.advance with hints := after.hints }

theorem length_advance_lt {s : ParserState} (h : s.tokens ≠ []) :
    s.advance.tokens.length < s.tokens.length := by
  cases ht : s.tokens with
  | nil => exact absurd ht h
  | cons t ts => simp [advance, ht]

theorem length_orSkip_lt {s : ParserState} (h : s.tokens ≠ []) (after : ParserState) :
    (s.orSkip after).tokens.length < s.tokens.length := by
  unfold orSkip
  split
  · assumption
  · exact length_advance_lt h

/-- Whether reading cannot go on at a token after a mistake. -/
def isSkipped (kind : TokenKind) : Bool :=
  kind ≠ .semicolon && !kind.isStatementStart

/-- The state at the next place where a statement may begin or end. -/
def synchronize (s : ParserState) : ParserState :=
  s.skipWhile isSkipped

/-- What may begin a statement. -/
def statementKeywords : List String :=
  ["SELECT", "INSERT INTO", "UPDATE", "DELETE FROM", "CREATE TABLE", "ALTER TABLE", "DROP TABLE"]

/-- The hint for the gap before the next statement. -/
def gapHint (s : ParserState) : Hint :=
  { Hint.startingAt s.lastStop with keywords := statementKeywords }.closedAt s.current.start

end ParserState

/-- What reading a script gives. -/
structure Script where
  statements : List Statement
  errors : List Diagnostic
  hints : Hints
deriving Inhabited

namespace Script

/-- Reads one statement, or reports a token that begins none. At the end of the
statement there must be a semicolon or the end of the text. -/
def step (s : ParserState) : Option Statement × List Diagnostic × ParserState :=
  if s.current.kind.isStatementStart then
    match Parser.statement.run s with
    | (.ok statement, s) =>
      if s.tokens = [] ∨ s.current.kind = .semicolon then
        (some statement, [], s)
      else
        (some statement, [s.expected "';' or end of input"], s.synchronize)
    | (.error d, s) => (none, [d], s.synchronize)
  else
    let d := Diagnostic.grammatical s!"unexpected token {s.current.kind.describe}" s.current.range
    (none, [d], s.advance)

/-- Leaves out the semicolons before a statement and records the gap, if there
is one. -/
def skipGap (separated : Bool) (s : ParserState) : ParserState :=
  let next := s.skipWhile (· = .semicolon)
  if separated || s.current.kind = .semicolon then
    { next with hints := next.hints ++ [next.gapHint] }
  else
    next

theorem length_skipGap_le (separated : Bool) (s : ParserState) :
    (skipGap separated s).tokens.length ≤ s.tokens.length := by
  unfold skipGap
  split <;> exact s.length_skip_le _

/-- Reads the statements that are left. -/
def readFrom (separated : Bool) (s : ParserState) :
    List Statement × List Diagnostic × List Hint :=
  let ready := skipGap separated s
  if _h : ready.tokens = [] then
    ([], [], ready.hints)
  else
    let (statement, errors, after) := step ready
    let (statements, laterErrors, hints) := readFrom false (ready.orSkip after)
    (statement.toList ++ statements, errors ++ laterErrors, hints)
termination_by s.tokens.length
decreasing_by
  exact Nat.lt_of_lt_of_le (ParserState.length_orSkip_lt _h _) (length_skipGap_le separated s)

/-- Reads a list of tokens. Blanks and comments are passed over. -/
def ofTokens (tokens : List Token) : Script :=
  let (statements, errors, hints) := readFrom true (ParserState.start tokens)
  ⟨statements, errors, ⟨hints⟩⟩

end Script

/-- Reads a text that is one expression. -/
def Expr.parse (source : String) : Except Diagnostic Expr :=
  match Parser.expr.run (ParserState.start (Lexed.ofText source).tokens) with
  | (.ok e, s) => if s.tokens = [] then .ok e else .error (s.expected "end of expression")
  | (.error d, _) => .error d

end SqlAnalysis

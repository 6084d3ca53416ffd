import SqlAnalysis.Binary64.Notation
import SqlAnalysis.Source.Position
import SqlAnalysis.Source.Span
import SqlAnalysis.Token.Keyword

/-!
# Tokens

A source text is a sequence of tokens, blanks and comments among them, with one
empty token at its end.
-/
namespace SqlAnalysis

inductive TokenKind where
  | integer (value : Nat)
  | float (value : Binary64)
  /-- A quoted text that does not have exactly one character. -/
  | string (value : String)
  | character (value : Char)
  | name (text : String)
  /-- A name between quotes or brackets, which are left out. -/
  | quotedName (text : String)
  | plus | minus | star | slash | percent
  | eq | notEq | lt | le | gt | ge
  | concat
  | dot | comma | semicolon | leftParen | rightParen
  | keyword (word : Keyword)
  | whitespace | newline | lineComment | blockComment
  /-- The end of the text. -/
  | eof
deriving DecidableEq, Inhabited

namespace TokenKind

/-- The token kind as messages name it. -/
def describe : TokenKind → String
  | .integer value => toString value
  | .float value => value.render
  | .string _ | .character _ => "string"
  | .name text | .quotedName text => "identifier " ++ text
  | .plus => "'+'"
  | .minus => "'-'"
  | .star => "'*'"
  | .slash => "'/'"
  | .percent => "'%'"
  | .eq => "'='"
  | .notEq => "'<>'"
  | .lt => "'<'"
  | .le => "'<='"
  | .gt => "'>'"
  | .ge => "'>='"
  | .concat => "'||'"
  | .dot => "'.'"
  | .comma => "','"
  | .semicolon => "';'"
  | .leftParen => "'('"
  | .rightParen => "')'"
  | .keyword word => word.spelling
  | .whitespace => "whitespace"
  | .newline => "newline"
  | .lineComment | .blockComment => "comment"
  | .eof => "end of input"

def isComment : TokenKind → Bool
  | .lineComment | .blockComment => true
  | _ => false

/-- Blanks and comments, which the grammar does not see. -/
def isTrivia : TokenKind → Bool
  | .whitespace | .newline | .lineComment | .blockComment => true
  | _ => false

def isStatementStart : TokenKind → Bool
  | .keyword word => word.isStatementStart
  | _ => false

end TokenKind

structure Token where
  kind : TokenKind
  span : Span
  start : Position
  stop : Position
  /-- The nearest comment before the token, if no other token took it. -/
  leadingComment : Option Span
deriving DecidableEq, Inhabited

def Token.range (t : Token) : Range := ⟨t.start, t.stop⟩

end SqlAnalysis

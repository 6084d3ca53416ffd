import SqlAnalysis.Proofs.Grammar.RereadDefinitions
import SqlAnalysis.Proofs.Grammar.RereadStatements
import SqlAnalysis.Proofs.Grammar.StatementProduction
import SqlAnalysis.Proofs.Syntax.DefinitionTexts
import SqlAnalysis.Proofs.Syntax.Nodes
import SqlAnalysis.Proofs.Syntax.Rendering
import SqlAnalysis.Proofs.Token.Showable

/-!
# Canonical texts read back

The canonical text of a query or of a change to rows is read as that statement again,
and gives itself as its canonical text. The printer and the grammar meet in the tokens
of the text: the printer writes texts that lex to them, and the grammar accepts them.

The canonical text of a table with a column is read as a table with the same columns and
the same rules. The text of an operand in brackets on the right of `IN` is that of a list
with one member, and it is read as one.
-/
namespace SqlAnalysis

def Expr.isList : Expr → Bool
  | .list _ _ => true
  | _ => false

/-- The columns a statement defines. -/
def StatementBody.columnDefs : StatementBody → List ColumnDef
  | .createTable table => table.columns
  | .select _ | .insert _ | .update _ | .delete _ | .alterTable _ | .dropTable _ => []

theorem StatementBody.createTable_of_columnDefs (b : StatementBody) (h : b.columnDefs ≠ []) :
    ∃ table, b = .createTable table ∧ table.columns ≠ [] := by
  cases b with
  | createTable table => exact ⟨table, rfl, h⟩
  | _ => exact absurd rfl h

/-- The canonical text of a statement lexes to its tokens. -/
theorem StatementBody.written {body : StatementBody} (hbody : body.isDefinition = false)
    (h : body.BuiltOf Expr.WrittenOut fun s => Written endsExpr s.render s.words) :
    Written endsExpr body.render body.words := by
  cases body with
  | select s => exact h
  | insert s => exact Insert.written h
  | update s => exact Update.written h
  | delete s => exact Delete.written h
  | _ => cases hbody

/-- A text that lexes to tokens that are accepted as one statement is a script of this
statement alone. -/
theorem Script.ofText_accepted {text : String} {ks : List TokenKind} {Q : Statement → Prop}
    (hwritten : Written endsExpr text ks) (hstart : (headKind ks).isStatementStart = true)
    (h : Parser.Accepts Parser.statement ks [] Q) :
    (Lexed.ofText text).errors = [] ∧ ∃ s',
      (ofTokens (Lexed.ofText text).tokens).statements = [s'] ∧
        (ofTokens (Lexed.ofText text).tokens).errors = [] ∧ Q s' := by
  have hlexes : Lexes text.toList ks := by
    simpa using hwritten.lexes [] [] (.nil _) .nil
  obtain ⟨herrors, hkinds⟩ := hlexes.ofText hwritten.balanced
  exact ⟨herrors, ofTokens_single (kinds_start hkinds hlexes.kind_ne_eof) hstart h⟩

/-- A text that lexes to the tokens of a statement is a script of this statement alone. -/
theorem Script.ofText_single {text : String} {s : Statement}
    (hbody : s.body.isDefinition = false) (hwritten : Written endsExpr text s.body.words)
    (hbuilt : s.body.BuiltOf Expr.Reread Select.Reread) :
    (Lexed.ofText text).errors = [] ∧ ∃ s',
      (ofTokens (Lexed.ofText text).tokens).statements = [s'] ∧
        (ofTokens (Lexed.ofText text).tokens).errors = [] ∧ s.Kept s' :=
  ofText_accepted hwritten (StatementBody.head_words hbody) (Parser.statement_accepts hbody hbuilt)

namespace Statement

/-- The canonical text of a query or of a change to rows is read without a complaint,
as one statement that has the same skeleton and the same canonical text. -/
theorem render_reads_back {source : String} {s : Statement}
    (hshowable : ∀ t ∈ (Lexed.ofText source).tokens, t.kind.isShowable = true)
    (hs : s ∈ (Script.ofTokens (Lexed.ofText source).tokens).statements)
    (hbody : s.body.isDefinition = false) :
    (Lexed.ofText s.render).errors = [] ∧
      (Script.ofTokens (Lexed.ofText s.render).tokens).errors = [] ∧
        ∃ s', (Script.ofTokens (Lexed.ofText s.render).tokens).statements = [s'] ∧
          s'.skeleton = s.skeleton ∧ s'.render = s.render := by
  have hplain := Lexed.ofText_plain hshowable
  have hwritten := Script.ofTokens_built writtenOut_builds hplain s hs
  have hreread := Script.ofTokens_built reread_builds hplain s hs
  obtain ⟨hlexical, s', hstatements, hsyntactic, hkept⟩ :=
    Script.ofText_single hbody (StatementBody.written hbody hwritten) hreread
  exact ⟨hlexical, hsyntactic, s', hstatements, hkept.bare, hkept.text⟩

theorem render_reads_back_operators :
    let script := Script.ofTokens (Lexed.ofText "select not - -(b) in ((1)) from \"t\"").tokens
    ∃ s ∈ script.statements, (Lexed.ofText s.render).errors = [] ∧
      (Script.ofTokens (Lexed.ofText s.render).tokens).errors = [] ∧
        ∃ s', (Script.ofTokens (Lexed.ofText s.render).tokens).statements = [s'] ∧
          s'.skeleton = s.skeleton ∧ s'.render = s.render := by
  intro script
  have hne : script.statements ≠ [] := by decide +kernel
  have hbody : ∀ s ∈ script.statements, s.body.isDefinition = false := by decide +kernel
  have hs := List.head_mem hne
  exact ⟨_, hs, render_reads_back (by decide +kernel) hs (hbody _ hs)⟩

end Statement

namespace CreateTable

/-- The canonical text of a table that has a column is read without a complaint, as one
statement that defines a table with the same skeleton. -/
theorem definition_reads_back {source : String} {s : Statement} {table : CreateTable}
    (hshowable : ∀ t ∈ (Lexed.ofText source).tokens, t.kind.isShowable = true)
    (hs : s ∈ (Script.ofTokens (Lexed.ofText source).tokens).statements)
    (hbody : s.body = .createTable table) (hcolumns : table.columns ≠ []) :
    (Lexed.ofText s.render).errors = [] ∧
      (Script.ofTokens (Lexed.ofText s.render).tokens).errors = [] ∧
        ∃ s' table', (Script.ofTokens (Lexed.ofText s.render).tokens).statements = [s'] ∧
          s'.body = .createTable table' ∧ table'.skeleton = table.skeleton := by
  have hplain := Lexed.ofText_plain hshowable
  have hwritten := Script.ofTokens_built writtenOut_builds hplain s hs
  have hreread := Script.ofTokens_built reread_builds hplain s hs
  have hrender : s.render = table.render := by rw [Statement.render, hbody, StatementBody.render]
  rw [hbody] at hwritten hreread
  rw [hrender]
  obtain ⟨hlexical, s', hstatements, hsyntactic, table', hbody', hbare⟩ :=
    Script.ofText_accepted (CreateTable.written hwritten hcolumns) rfl
      (Parser.statement_accepts_createTable hreread)
  exact ⟨hlexical, hsyntactic, s', table', hstatements, hbody', hbare⟩

theorem definition_reads_back_interleaved :
    let script := Script.ofTokens (Lexed.ofText
      "create table t (a big int(9) default -1, unique (a), b check (b in (1)))").tokens
    ∃ s ∈ script.statements, (Lexed.ofText s.render).errors = [] ∧
      (Script.ofTokens (Lexed.ofText s.render).tokens).errors = [] ∧
        ∃ table s' table', s.body = .createTable table ∧
          (Script.ofTokens (Lexed.ofText s.render).tokens).statements = [s'] ∧
            s'.body = .createTable table' ∧ table'.skeleton = table.skeleton := by
  intro script
  obtain ⟨s, hs, htable⟩ : ∃ s ∈ script.statements, s.body.columnDefs ≠ [] := by decide +kernel
  obtain ⟨table, hbody, hcolumns⟩ := s.body.createTable_of_columnDefs htable
  obtain ⟨hlexical, hsyntactic, s', table', hstatements, hbody', hbare⟩ :=
    definition_reads_back (by decide +kernel) hs hbody hcolumns
  exact ⟨s, hs, hlexical, hsyntactic, table, s', table', hbody, hstatements, hbody', hbare⟩

/-- The operand is no list, but what its text is read as is one. -/
theorem member_read_as_list :
    let text := "CREATE TABLE t (a integer CHECK (a IN -1))"
    let script := Script.ofTokens (Lexed.ofText text).tokens
    (Lexed.ofText text).errors = [] ∧ script.errors = [] ∧
      ∃ s ∈ script.statements, s.body.keyword = "CREATE TABLE" ∧
        s.body.allNodes.any Expr.isList = false ∧
          ∃ s' ∈ (Script.ofTokens (Lexed.ofText s.render).tokens).statements,
            s'.body.allNodes.any Expr.isList = true := by
  refine ⟨?_, ?_, ?_⟩ <;> decide +kernel

end CreateTable
end SqlAnalysis

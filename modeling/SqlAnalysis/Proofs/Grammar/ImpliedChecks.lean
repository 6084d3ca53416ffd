import SqlAnalysis.Canonical
import SqlAnalysis.Proofs.Grammar.RereadQueries
import SqlAnalysis.Proofs.Grammar.RereadStatements
import SqlAnalysis.Proofs.Syntax.Rendering

/-!
# Checks that types imply, as expressions

The check that a type implies for a column is put together as a text. It is the text of an
expression, which is what is read from it, whatever the column is called.
-/
namespace SqlAnalysis

/-! ### Texts of one expression -/

/-- A text that lexes to the tokens of an expression is read as this expression. -/
theorem Expr.parse_written {e : Expr} (hwritten : Written endsExpr e.render e.words)
    (hreread : e.RereadAlone) : ∃ e', parse e.render = .ok e' ∧ e.Kept e' := by
  have hlexes : Lexes e.render.toList e.words := by
    simpa using hwritten.lexes [] [] (.nil _) .nil
  obtain ⟨-, hkinds⟩ := hlexes.ofText hwritten.balanced
  have hstart := Script.kinds_start hkinds hlexes.kind_ne_eof
  have haccepts : Parser.Accepts Parser.expr e.words [] e.Kept := by
    refine .get fun s hs => ?_
    have hlength : (e.words ++ []).length < s.tokens.length + 1 := by
      rw [List.append_nil, ← hs, s.length_kinds]
      exact Nat.lt_succ_self _
    simpa using hreread.nested_expr hlength rfl
  obtain ⟨e', u, hrun, hleft, hkept⟩ := haccepts _ hstart
  refine ⟨e', ?_, hkept⟩
  rw [parse, hrun]
  exact if_pos (List.map_eq_nil_iff.mp hleft)

/-! ### Checks -/

namespace Expr

variable {left right : Expr} {ident : Ident}

/-- A name as an expression. -/
def ofIdent (ident : Ident) : Expr := .name { span := Span.zero } ident

def ofNat (n : Nat) : Expr := .constant { span := Span.zero } (.integer n)

/-- The call of a function on a name. -/
def callOn (function : String) (ident : Ident) : Expr :=
  .call { span := Span.zero } ⟨function, false, Span.zero⟩ [ofIdent ident]

theorem render_ofNat (n : Nat) : (ofNat n).render = toString n := by
  rw [ofNat, render, Literal.render]
  rfl

theorem render_callOn {function : String} (h : Ident.needsQuotes function = false) :
    (callOn function ident).render = function ++ "(" ++ ident.render ++ ")" := by
  simp [callOn, ofIdent, render, renderExprs, bracketList, commaList, Text.joinWith, Ident.render,
    h, String.append_assoc]

/-- Operands that are no operations need no brackets. -/
theorem render_binaryOf (op : BinaryOperator) (hleft : left.isOperation = false)
    (hright : right.isOperation = false) :
    (left.binaryOf op right).render = left.render ++ " " ++ op.spelling ++ " " ++ right.render := by
  simp [binaryOf, render, bracketIf, hleft, hright]

end Expr

namespace SqlType

variable {t : SqlType} {column : Ident} {check : Expr}

/-- The check that a column of the type implies, as an expression. -/
def check? (t : SqlType) (column : Ident) : Option Expr :=
  let name := Expr.ofIdent column
  match t.kind with
  | .varchar | .char =>
    t.params.head?.map fun n => (Expr.callOn "length" column).binaryOf .le (.ofNat n)
  | .boolean => some (name.binaryOf .member (.list { span := Span.zero } [.ofNat 0, .ofNat 1]))
  | .date => some (name.binaryOf .eq (.callOn "date" column))
  | .datetime => some (name.binaryOf .eq (.callOn "datetime" column))
  | _ => none

/-- The check that is put together as a text is the text of an expression. -/
theorem constraint?_eq (t : SqlType) (column : Ident) :
    t.constraint? column.render = (t.check? column).map Expr.render := by
  have hlength (n : Nat) : "length(" ++ column.render ++ ") <= " ++ toString n =
      ((Expr.callOn "length" column).binaryOf .le (.ofNat n)).render := by
    rw [Expr.render_binaryOf _ rfl rfl, Expr.render_callOn rfl, Expr.render_ofNat,
      ← String.toList_inj]
    simp [String.toList_append, BinaryOperator.spelling]
  have hmember : column.render ++ " IN (0, 1)" = ((Expr.ofIdent column).binaryOf .member
      (.list { span := Span.zero } [.ofNat 0, .ofNat 1])).render := by
    rw [Expr.render_binaryOf _ rfl rfl, ← String.toList_inj]
    simp [Expr.ofIdent, Expr.render, BinaryOperator.spelling, String.toList_append]
    rfl
  have hequal (function middle : String) (h : Ident.needsQuotes function = false)
      (hmiddle : middle = " = " ++ function ++ "(") : column.render ++ middle ++ column.render ++ ")" =
        ((Expr.ofIdent column).binaryOf .eq (.callOn function column)).render := by
    rw [Expr.render_binaryOf _ rfl rfl, Expr.render_callOn h, hmiddle]
    simp [Expr.ofIdent, Expr.render, BinaryOperator.spelling, String.append_assoc]
  obtain ⟨kind, params⟩ := t
  cases kind with
  | varchar | char =>
    show params.head?.map _ = (params.head?.map _).map Expr.render
    rw [Option.map_map]
    exact congrArg (params.head?.map ·) (funext hlength)
  | boolean => exact congrArg some hmember
  | date => exact congrArg some (hequal "date" " = date(" rfl rfl)
  | datetime => exact congrArg some (hequal "datetime" " = datetime(" rfl rfl)
  | _ => rfl

/-- A check is built of plain tokens if the name of the column is one. -/
theorem check?_builds {P : Expr → Prop} {S : Select → Prop} (builds : Builds P S)
    (hcolumn : column.Plain) (hparams : ∀ n ∈ t.params, n ≤ Text.maxWord)
    (h : t.check? column = some check) : P check := by
  have hname : P (.ofIdent column) := builds.name hcolumn
  have hnumber (n : Nat) (hn : n ≤ Text.maxWord) : P (.ofNat n) :=
    builds.constant ⟨hn.trans (by decide), rfl⟩
  have hcall (function : String)
      (hfunction : Ident.Plain ⟨function, false, Span.zero⟩) : P (.callOn function column) :=
    builds.call hfunction (List.forall_mem_singleton.mpr hname)
  obtain ⟨kind, params⟩ := t
  cases kind with
  | varchar =>
    obtain ⟨n, hn, rfl⟩ := Option.map_eq_some_iff.mp h
    exact builds.binary (hcall "length" rfl) (.expr (hnumber n (hparams n (List.mem_of_head? hn))))
  | char =>
    obtain ⟨n, hn, rfl⟩ := Option.map_eq_some_iff.mp h
    exact builds.binary (hcall "length" rfl) (.expr (hnumber n (hparams n (List.mem_of_head? hn))))
  | boolean =>
    cases h
    have hmembers : ∀ e ∈ [Expr.ofNat 0, .ofNat 1], P e :=
      List.forall_mem_cons.mpr ⟨hnumber 0 (by decide),
        List.forall_mem_singleton.mpr (hnumber 1 (by decide))⟩
    exact builds.binary hname (.members rfl hmembers)
  | date =>
    cases h
    exact builds.binary hname (.expr (hcall "date" rfl))
  | datetime =>
    cases h
    exact builds.binary hname (.expr (hcall "datetime" rfl))
  | _ => cases h

/-- The text of a check is read as an expression with this very text. -/
theorem check?_parses (hcolumn : column.Plain) (hparams : ∀ n ∈ t.params, n ≤ Text.maxWord)
    (h : t.check? column = some check) :
    ∃ e, Expr.parse check.render = .ok e ∧ check.Kept e :=
  Expr.parse_written (check?_builds writtenOut_builds hcolumn hparams h).text
    (check?_builds reread_builds hcolumn hparams h).toRereadAlone

end SqlType
end SqlAnalysis

import SqlAnalysis.Proofs.Syntax.Likeness
import SqlAnalysis.Proofs.Syntax.Words

/-!
# Texts of alike trees

The canonical texts of alike trees differ in case only.
-/
namespace SqlAnalysis

open Text

variable {forget : Prop}

section

variable {a b a' b' : String} {xs xs' : List String}

theorem foldCase_append_eq (h : foldCase a = foldCase a') (h' : foldCase b = foldCase b') :
    foldCase (a ++ b) = foldCase (a' ++ b') := by
  rw [foldCase_append, foldCase_append, h, h']

theorem foldCase_commaList_eq (h : xs.map foldCase = xs'.map foldCase) :
    foldCase (commaList xs) = foldCase (commaList xs') := by
  unfold commaList
  rw [foldCase_joinWith, foldCase_joinWith, h]

theorem foldCase_bracketList_eq (h : xs.map foldCase = xs'.map foldCase) :
    foldCase (bracketList xs) = foldCase (bracketList xs') :=
  foldCase_append_eq (foldCase_append_eq rfl (foldCase_commaList_eq h)) rfl

theorem foldCase_bracketIf_eq (operation : Bool) (h : foldCase a = foldCase a') :
    foldCase (bracketIf operation a) = foldCase (bracketIf operation a') := by
  cases operation with
  | true => exact foldCase_append_eq (foldCase_append_eq rfl h) rfl
  | false => exact h

end

namespace Ident

theorem isPlainChar_eq {c d : Char} (h : SameLetter c d) : isPlainChar c = isPlainChar d := by
  have hunderscore : c = '_' ↔ d = '_' := h.eq_iff (by decide)
  simp only [isPlainChar, h.isLetter_eq, h.isDigit_eq, hunderscore]

theorem needsQuotes_eq {a b : String} (h : foldCase a = foldCase b) :
    needsQuotes a = needsQuotes b := by
  have hletters := foldCase_eq_iff.mp h
  unfold needsQuotes
  generalize a.toList = cs at hletters
  generalize b.toList = ds at hletters
  cases hletters with
  | nil => rfl
  | @cons c d cs ds hc hrest =>
    have hunderscore : c = '_' ↔ d = '_' := hc.eq_iff (by decide)
    have hany : cs.any (fun x => !isPlainChar x) = ds.any fun x => !isPlainChar x := by
      induction hrest with
      | nil => rfl
      | cons hx _ ih => rw [List.any_cons, List.any_cons, isPlainChar_eq hx, ih]
    simp only [hc.isLetter_eq, hunderscore, hany]

theorem double_sameLetters {x : Char} (hx : isLetter x = false) {cs ds : List Char}
    (h : SameLetters cs ds) : SameLetters (double x cs) (double x ds) := by
  induction h with
  | nil => exact .nil
  | cons hc _ ih =>
    simp only [double, hc.eq_iff hx]
    split
    · exact .cons rfl (.cons rfl ih)
    · exact .cons hc ih

theorem foldCase_quote {a b : String} (h : foldCase a = foldCase b) :
    foldCase (quote a) = foldCase (quote b) := by
  have hdouble := double_sameLetters (x := '\x22') (by decide) (foldCase_eq_iff.mp h)
  refine foldCase_append_eq (foldCase_append_eq rfl ?_) rfl
  rw [foldCase_ofList, foldCase_ofList, sameLetters_iff.mp hdouble]

theorem Like.render {a b : Ident} (h : a.Like b) : foldCase a.render = foldCase b.render := by
  unfold Ident.render
  rw [h.quoted, needsQuotes_eq h.name]
  split
  · exact foldCase_quote h.name
  · exact h.name

end Ident

theorem foldCase_renderAlias {a b : Option Ident} (h : Option.Rel Ident.Like a b) :
    foldCase (renderAlias a) = foldCase (renderAlias b) := by
  cases h with
  | none => rfl
  | some h => exact foldCase_append_eq rfl h.render

theorem Expr.Like.foldCase_bracketIf {e e' : Expr} (h : e.Like forget e')
    (hrender : foldCase e.render = foldCase e'.render) :
    foldCase (bracketIf e.isOperation e.render) =
      foldCase (bracketIf e'.isOperation e'.render) := by
  rw [h.isOperation_eq]
  exact foldCase_bracketIf_eq _ hrender

mutual

theorem Expr.foldCase_render : (e : Expr) → ∀ {e' : Expr}, e.Like forget e' →
    foldCase e.render = foldCase e'.render
  | .constant _ _, _, .constant _ => rfl
  | .name _ _, _, .name _ ident => ident.render
  | .dot _ left _, _, .dot _ hleft hright => by
    have hleft := left.foldCase_render hleft
    simp only [Expr.render, foldCase_append, hleft, hright.render]
  | .binary _ left _ right, _, .binary _ hleft hright => by
    have hleft' := hleft.foldCase_bracketIf (left.foldCase_render hleft)
    have hright' := hright.foldCase_bracketIf (right.foldCase_render hright)
    simp only [Expr.render, foldCase_append, hleft', hright']
  | .unary _ op operand, _, .unary _ hoperand => by
    have hoperand' := hoperand.foldCase_bracketIf (operand.foldCase_render hoperand)
    cases op <;> simp only [Expr.render, foldCase_append, hoperand']
  | .call _ _ args, _, .call _ hfunction hargs => by
    have hargs' := foldCase_bracketList_eq (Expr.foldCase_renders args hargs)
    simp only [Expr.render, foldCase_append, hfunction.render, hargs']
  | .callStar _ _ _, _, .callStar _ hfunction => by
    simp only [Expr.render, foldCase_append, hfunction.render]
  | .brackets _ inner, _, .brackets _ hinner => by
    have hinner' := inner.foldCase_render hinner
    simp only [Expr.render, foldCase_append, hinner']
  | .list _ items, _, .list _ hitems => by
    simp only [Expr.render]
    exact foldCase_bracketList_eq (Expr.foldCase_renders items hitems)
  | .subquery _ select, _, .subquery _ hselect => by
    have hselect' := select.foldCase_render hselect
    simp only [Expr.render, foldCase_append, hselect']
termination_by structural e => e

theorem Expr.foldCase_renders : (es : List Expr) → ∀ {es' : List Expr},
    List.Forall₂ (Expr.Like forget) es es' →
      (renderExprs es).map foldCase = (renderExprs es').map foldCase
  | [], _, .nil => rfl
  | e :: es, _, .cons he hes => by
    simp only [renderExprs, List.map_cons, e.foldCase_render he, Expr.foldCase_renders es hes]
termination_by structural e => e

theorem ResultColumn.foldCase_renders : (columns : List ResultColumn) →
    ∀ {columns' : List ResultColumn}, List.Forall₂ (ResultColumn.Like forget) columns columns' →
      (renderColumns columns).map foldCase = (renderColumns columns').map foldCase
  | [], _, .nil => rfl
  | .star _ :: columns, _, .cons (.star _) hcolumns => by
    simp only [renderColumns, List.map_cons, ResultColumn.foldCase_renders columns hcolumns]
  | .tableStar _ :: columns, _, .cons (.tableStar htable) hcolumns => by
    simp only [renderColumns, List.map_cons, foldCase_append, htable.render,
      ResultColumn.foldCase_renders columns hcolumns]
  | .expr value _ :: columns, _, .cons (.expr hvalue hlabel) hcolumns => by
    simp only [renderColumns, List.map_cons, foldCase_append, value.foldCase_render hvalue,
      foldCase_renderAlias hlabel, ResultColumn.foldCase_renders columns hcolumns]
termination_by structural e => e

theorem Source.foldCase_render : (s : Source) → ∀ {s' : Source}, s.Like forget s' →
    foldCase s.render = foldCase s'.render
  | .table _ _ _, _, .table hname hlabel => by
    simp only [Source.render, foldCase_append, hname.render, foldCase_renderAlias hlabel]
  | .subquery select _ _, _, .subquery hselect hlabel => by
    simp only [Source.render, foldCase_append, select.foldCase_render hselect,
      foldCase_renderAlias hlabel]
termination_by structural e => e

theorem Join.foldCase_renders : (joins : List Join) → ∀ {joins' : List Join},
    List.Forall₂ (Join.Like forget) joins joins' →
      foldCase (renderJoins joins) = foldCase (renderJoins joins')
  | [], _, .nil => rfl
  | ⟨_, _, source, none, _⟩ :: joins, _, .cons (.mk hsource .none) hjoins => by
    simp only [renderJoins, foldCase_append, source.foldCase_render hsource,
      Join.foldCase_renders joins hjoins]
  | ⟨_, _, source, some on, _⟩ :: joins, _, .cons (.mk hsource (.some hon)) hjoins => by
    simp only [renderJoins, foldCase_append, source.foldCase_render hsource,
      on.foldCase_render hon, Join.foldCase_renders joins hjoins]
termination_by structural e => e

theorem OrderingTerm.foldCase_renders : (terms : List OrderingTerm) →
    ∀ {terms' : List OrderingTerm}, List.Forall₂ (OrderingTerm.Like forget) terms terms' →
      (renderTerms terms).map foldCase = (renderTerms terms').map foldCase
  | [], _, .nil => rfl
  | ⟨expr, _, _⟩ :: terms, _, .cons (.mk hexpr) hterms => by
    simp only [renderTerms, List.map_cons, foldCase_append, expr.foldCase_render hexpr,
      OrderingTerm.foldCase_renders terms hterms]
termination_by structural e => e

theorem Expr.foldCase_where : (e : Option Expr) → ∀ {e' : Option Expr},
    Option.Rel (Expr.Like forget) e e' →
      foldCase (e.elim "" renderWhere) = foldCase (e'.elim "" renderWhere)
  | none, _, .none => rfl
  | some e, _, .some he => foldCase_append_eq rfl (e.foldCase_render he)
termination_by structural e => e

theorem FromClause.foldCase_render : (clause : Option FromClause) → ∀ {clause' : Option FromClause},
    Option.Rel (FromClause.Like forget) clause clause' →
      foldCase (clause.elim "" renderFrom) = foldCase (clause'.elim "" renderFrom)
  | none, _, .none => rfl
  | some ⟨source, joins⟩, _, .some (.mk hsource hjoins) =>
    foldCase_append_eq (foldCase_append_eq rfl (source.foldCase_render hsource))
      (Join.foldCase_renders joins hjoins)
termination_by structural e => e

theorem GroupBy.foldCase_render : (clause : Option GroupBy) → ∀ {clause' : Option GroupBy},
    Option.Rel (GroupBy.Like forget) clause clause' →
      foldCase (clause.elim "" renderGroupBy) = foldCase (clause'.elim "" renderGroupBy)
  | none, _, .none => rfl
  | some ⟨exprs, none, _⟩, _, .some (.mk hexprs .none) =>
    foldCase_append_eq rfl (foldCase_commaList_eq (Expr.foldCase_renders exprs hexprs))
  | some ⟨exprs, some having, _⟩, _, .some (.mk hexprs (.some hhaving)) =>
    have hgroups := foldCase_commaList_eq (Expr.foldCase_renders exprs hexprs)
    foldCase_append_eq (foldCase_append_eq (foldCase_append_eq rfl hgroups) rfl)
      (having.foldCase_render hhaving)
termination_by structural e => e

theorem OrderBy.foldCase_render : (clause : Option OrderBy) → ∀ {clause' : Option OrderBy},
    Option.Rel (OrderBy.Like forget) clause clause' →
      foldCase (clause.elim "" renderOrderBy) = foldCase (clause'.elim "" renderOrderBy)
  | none, _, .none => rfl
  | some ⟨terms, _⟩, _, .some (.mk hterms) =>
    foldCase_append_eq rfl (foldCase_commaList_eq (OrderingTerm.foldCase_renders terms hterms))
termination_by structural e => e

theorem Limit.foldCase_render : (clause : Option Limit) → ∀ {clause' : Option Limit},
    Option.Rel (Limit.Like forget) clause clause' →
      foldCase (clause.elim "" renderLimit) = foldCase (clause'.elim "" renderLimit)
  | none, _, .none => rfl
  | some ⟨limit, none, _⟩, _, .some (.mk hlimit .none) =>
    foldCase_append_eq rfl (limit.foldCase_render hlimit)
  | some ⟨limit, some offset, _⟩, _, .some (.mk hlimit (.some hoffset)) =>
    foldCase_append_eq
      (foldCase_append_eq (foldCase_append_eq rfl (limit.foldCase_render hlimit)) rfl)
      (offset.foldCase_render hoffset)
termination_by structural e => e

theorem Select.foldCase_render : (s : Select) → ∀ {s' : Select}, s.Like forget s' →
    foldCase s.render = foldCase s'.render
  | ⟨_, columns, clause, test, groupBy, orderBy, limit, _, _⟩, _,
      .mk hcolumns hclause htest hgroupBy horderBy hlimit => by
    have hcolumns' := foldCase_commaList_eq (ResultColumn.foldCase_renders columns hcolumns)
    have hclause' := FromClause.foldCase_render clause hclause
    have htest' := Expr.foldCase_where test htest
    have hgroupBy' := GroupBy.foldCase_render groupBy hgroupBy
    have horderBy' := OrderBy.foldCase_render orderBy horderBy
    have hlimit' := Limit.foldCase_render limit hlimit
    rw [Select.render_eq, Select.render_eq]
    exact foldCase_append_eq (foldCase_append_eq (foldCase_append_eq (foldCase_append_eq
      (foldCase_append_eq (foldCase_append_eq rfl hcolumns') hclause') htest') hgroupBy')
      horderBy') hlimit'
termination_by structural e => e

end

end SqlAnalysis

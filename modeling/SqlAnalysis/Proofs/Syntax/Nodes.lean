import SqlAnalysis.Syntax.Statement

/-!
# What stands in a tree

The expressions, the queries and the names of tables inside an expression or a query at any
depth: in result columns, sources, conditions, groups, orders and limits.
-/
namespace SqlAnalysis

/-! ### Expressions

Unlike `Expr.nodes`, which stays outside of queries, these lists enter them. -/

mutual

/-- The expression and all those inside it. -/
def Expr.allNodes : Expr → List Expr
  | .constant note value => [.constant note value]
  | .name note ident => [.name note ident]
  | .dot note left right => .dot note left right :: left.allNodes
  | .binary note left op right =>
    .binary note left op right :: (left.allNodes ++ right.allNodes)
  | .unary note op operand => .unary note op operand :: operand.allNodes
  | .call note function args => .call note function args :: exprNodes args
  | .callStar note function star => [.callStar note function star]
  | .brackets note inner => .brackets note inner :: inner.allNodes
  | .list note items => .list note items :: exprNodes items
  | .subquery note select => .subquery note select :: select.allNodes

def exprNodes : List Expr → List Expr
  | [] => []
  | e :: es => e.allNodes ++ exprNodes es

def columnNodes : List ResultColumn → List Expr
  | [] => []
  | .expr value _ :: columns => value.allNodes ++ columnNodes columns
  | .star _ :: columns => columnNodes columns
  | .tableStar _ :: columns => columnNodes columns

def Source.allNodes : Source → List Expr
  | .table _ _ _ => []
  | .subquery select _ _ => select.allNodes

def joinNodes : List Join → List Expr
  | [] => []
  | ⟨_, _, source, none, _⟩ :: joins => source.allNodes ++ joinNodes joins
  | ⟨_, _, source, some on, _⟩ :: joins => source.allNodes ++ on.allNodes ++ joinNodes joins

def termNodes : List OrderingTerm → List Expr
  | [] => []
  | ⟨expr, _, _⟩ :: terms => expr.allNodes ++ termNodes terms

def sourceNodes : Option FromClause → List Expr
  | none => []
  | some ⟨first, joins⟩ => first.allNodes ++ joinNodes joins

def optionNodes : Option Expr → List Expr
  | none => []
  | some e => e.allNodes

def groupNodes : Option GroupBy → List Expr
  | none => []
  | some ⟨exprs, having, _⟩ => exprNodes exprs ++ optionNodes having

def orderNodes : Option OrderBy → List Expr
  | none => []
  | some ⟨terms, _⟩ => termNodes terms

def limitNodes : Option Limit → List Expr
  | none => []
  | some ⟨count, offset, _⟩ => count.allNodes ++ optionNodes offset

/-- All expressions of a query, clause by clause. -/
def Select.allNodes : Select → List Expr
  | ⟨_, columns, source, condition, groupBy, orderBy, limit, _, _⟩ =>
    columnNodes columns ++ sourceNodes source ++ optionNodes condition ++ groupNodes groupBy ++
      orderNodes orderBy ++ limitNodes limit

end

def ColumnRule.allNodes : ColumnRule → List Expr
  | .default value => value.allNodes
  | .check e => e.allNodes
  | _ => []

def ColumnDef.allNodes (d : ColumnDef) : List Expr :=
  d.constraints.flatMap fun c => c.rule.allNodes

def TableRule.allNodes : TableRule → List Expr
  | .check e => e.allNodes
  | _ => []

def AlterAction.allNodes : AlterAction → List Expr
  | .addColumn d => d.allNodes
  | _ => []

/-- All expressions of a statement. -/
def StatementBody.allNodes : StatementBody → List Expr
  | .select s => s.allNodes
  | .insert i => i.rows.flatMap fun row => exprNodes row.values
  | .update u => (u.assignments.flatMap fun a => a.value.allNodes) ++ optionNodes u.condition
  | .delete d => optionNodes d.condition
  | .createTable t =>
    t.columns.flatMap ColumnDef.allNodes ++ t.constraints.flatMap fun c => c.rule.allNodes
  | .alterTable t => t.action.allNodes
  | .dropTable _ => []

theorem Expr.self_mem_allNodes (e : Expr) : e ∈ e.allNodes := by
  cases e <;> simp [Expr.allNodes]

theorem mem_exprNodes {x : Expr} {es : List Expr} :
    x ∈ exprNodes es ↔ ∃ e ∈ es, x ∈ e.allNodes := by
  induction es with
  | nil => simp [exprNodes]
  | cons e es ih => simp [exprNodes, ih]

theorem mem_columnNodes {x : Expr} {columns : List ResultColumn} :
    x ∈ columnNodes columns ↔
      ∃ value label, .expr value label ∈ columns ∧ x ∈ value.allNodes := by
  induction columns with
  | nil => simp [columnNodes]
  | cons column columns ih =>
    cases column <;> simp [columnNodes, ih, or_and_right, exists_or]

theorem mem_optionNodes {x : Expr} {o : Option Expr} :
    x ∈ optionNodes o ↔ ∃ e ∈ o, x ∈ e.allNodes := by
  cases o <;> simp [optionNodes]

theorem mem_joinNodes {x : Expr} {joins : List Join} :
    x ∈ joinNodes joins ↔
      ∃ join ∈ joins, x ∈ join.source.allNodes ∨ x ∈ optionNodes join.on := by
  induction joins with
  | nil => simp [joinNodes]
  | cons join joins ih =>
    obtain ⟨natural, operator, source, on, span⟩ := join
    cases on <;> simp [joinNodes, optionNodes, ih, or_assoc]

theorem mem_termNodes {x : Expr} {terms : List OrderingTerm} :
    x ∈ termNodes terms ↔ ∃ term ∈ terms, x ∈ term.expr.allNodes := by
  induction terms with
  | nil => simp [termNodes]
  | cons term terms ih =>
    obtain ⟨expr, direction, nulls⟩ := term
    simp [termNodes, ih]

/-! ### Queries

What stands before a point is the name of a table and is not entered. -/

mutual

/-- The queries inside an expression. -/
def Expr.selects : Expr → List Select
  | .constant _ _ => []
  | .name _ _ => []
  | .dot _ _ _ => []
  | .binary _ left _ right => left.selects ++ right.selects
  | .unary _ _ operand => operand.selects
  | .call _ _ args => exprSelects args
  | .callStar _ _ _ => []
  | .brackets _ inner => inner.selects
  | .list _ items => exprSelects items
  | .subquery _ select => select.selects

def exprSelects : List Expr → List Select
  | [] => []
  | e :: es => e.selects ++ exprSelects es

def columnSelects : List ResultColumn → List Select
  | [] => []
  | .expr value _ :: columns => value.selects ++ columnSelects columns
  | .star _ :: columns => columnSelects columns
  | .tableStar _ :: columns => columnSelects columns

def Source.selects : Source → List Select
  | .table _ _ _ => []
  | .subquery select _ _ => select.selects

def joinSelects : List Join → List Select
  | [] => []
  | ⟨_, _, source, none, _⟩ :: joins => source.selects ++ joinSelects joins
  | ⟨_, _, source, some on, _⟩ :: joins => source.selects ++ on.selects ++ joinSelects joins

def termSelects : List OrderingTerm → List Select
  | [] => []
  | ⟨expr, _, _⟩ :: terms => expr.selects ++ termSelects terms

def sourceSelects : Option FromClause → List Select
  | none => []
  | some ⟨first, joins⟩ => first.selects ++ joinSelects joins

def optionSelects : Option Expr → List Select
  | none => []
  | some e => e.selects

def groupSelects : Option GroupBy → List Select
  | none => []
  | some ⟨exprs, having, _⟩ => exprSelects exprs ++ optionSelects having

def orderSelects : Option OrderBy → List Select
  | none => []
  | some ⟨terms, _⟩ => termSelects terms

def limitSelects : Option Limit → List Select
  | none => []
  | some ⟨count, offset, _⟩ => count.selects ++ optionSelects offset

/-- The query and all those inside it, clause by clause. -/
def Select.selects : Select → List Select
  | ⟨distinct, columns, source, condition, groupBy, orderBy, limit, span, result⟩ =>
    ⟨distinct, columns, source, condition, groupBy, orderBy, limit, span, result⟩ ::
      (columnSelects columns ++ sourceSelects source ++ optionSelects condition ++
        groupSelects groupBy ++ orderSelects orderBy ++ limitSelects limit)

end

theorem Select.self_mem_selects (s : Select) : s ∈ s.selects := by
  cases s
  exact List.mem_cons_self

/-! ### Tables named outside of expressions

Two kinds of table names are looked up without regard to the scopes around a query: those
of its sources, in the catalog, and those before a star, among its own sources. -/

/-- A table name that is not looked up in the open scopes. -/
inductive Lookup where
  | source (table : Ident)
  | star (table : Ident)

mutual

/-- The tables named in the queries inside an expression. -/
def Expr.lookups : Expr → List Lookup
  | .constant _ _ | .name _ _ | .dot _ _ _ | .callStar _ _ _ => []
  | .binary _ left _ right => left.lookups ++ right.lookups
  | .unary _ _ operand => operand.lookups
  | .call _ _ args => exprLookups args
  | .brackets _ inner => inner.lookups
  | .list _ items => exprLookups items
  | .subquery _ select => select.lookups

def exprLookups : List Expr → List Lookup
  | [] => []
  | e :: es => e.lookups ++ exprLookups es

def columnLookups : List ResultColumn → List Lookup
  | [] => []
  | .star _ :: columns => columnLookups columns
  | .tableStar table :: columns => .star table :: columnLookups columns
  | .expr value _ :: columns => value.lookups ++ columnLookups columns

def Source.lookups : Source → List Lookup
  | .table name _ _ => [.source name]
  | .subquery select _ _ => select.lookups

def joinLookups : List Join → List Lookup
  | [] => []
  | ⟨_, _, source, none, _⟩ :: joins => source.lookups ++ joinLookups joins
  | ⟨_, _, source, some on, _⟩ :: joins => source.lookups ++ on.lookups ++ joinLookups joins

def termLookups : List OrderingTerm → List Lookup
  | [] => []
  | ⟨expr, _, _⟩ :: terms => expr.lookups ++ termLookups terms

def sourceLookups : Option FromClause → List Lookup
  | none => []
  | some ⟨first, joins⟩ => first.lookups ++ joinLookups joins

def optionLookups : Option Expr → List Lookup
  | none => []
  | some e => e.lookups

def groupLookups : Option GroupBy → List Lookup
  | none => []
  | some ⟨exprs, having, _⟩ => exprLookups exprs ++ optionLookups having

def orderLookups : Option OrderBy → List Lookup
  | none => []
  | some ⟨terms, _⟩ => termLookups terms

def limitLookups : Option Limit → List Lookup
  | none => []
  | some ⟨count, offset, _⟩ => count.lookups ++ optionLookups offset

/-- The tables named in a query: its sources and what stands before its stars, with those
of the queries inside it. -/
def Select.lookups : Select → List Lookup
  | ⟨_, columns, source, condition, groupBy, orderBy, limit, _, _⟩ =>
    sourceLookups source ++ (columnLookups columns ++ (optionLookups condition ++
      (groupLookups groupBy ++ (orderLookups orderBy ++ limitLookups limit))))

end

/-- The tables named in a query behind its sources. -/
def Select.laterLookups (s : Select) : List Lookup :=
  columnLookups s.columns ++ (optionLookups s.condition ++
    (groupLookups s.groupBy ++ (orderLookups s.orderBy ++ limitLookups s.limit)))

end SqlAnalysis

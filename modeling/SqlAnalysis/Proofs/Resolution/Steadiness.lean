import SqlAnalysis.Proofs.Resolution.Visibility

/-!
# Names that stay as they are

Names are bound where the sources of a query are resolved, where a statement takes its table
and where a column is added. Nothing else that resolves a part of a statement changes what
the names in the innermost scope stand for: expressions do not, and neither do the rules of
columns and tables.
-/
namespace SqlAnalysis.Resolver

open ResolverState

variable {α β : Type}

/-! ### Lists -/

section

variable {K : ResolverState → Prop} {s : ResolverState}

/-- What each step of a run keeps is kept by the run. -/
theorem mapM_keeps {f : α → Resolver β} (hf : ∀ a s, K s → K ((f a).run s).2) (as : List α)
    (hs : K s) : K ((as.mapM f).run s).2 := by
  induction as generalizing s with
  | nil => exact hs
  | cons a as ih =>
    rw [List.mapM_cons]
    exact ih (hf a s hs)

theorem forM_keeps {f : α → Resolver Unit} (hf : ∀ a s, K s → K ((f a).run s).2) (as : List α)
    (hs : K s) : K ((as.forM f).run s).2 := by
  induction as generalizing s with
  | nil => exact hs
  | cons a as ih => exact ih (hf a s hs)

end

/-- Whether a resolver leaves the innermost scope as it is, besides the scopes inside it. -/
def Steady (r : Resolver α) : Prop :=
  ∀ s, (r.run s).2.innermost = s.innermost

namespace Steady

variable {r : Resolver α} {f : α → Resolver β}

theorem pure (a : α) : Steady (pure a) :=
  fun _ => rfl

theorem bind (hr : Steady r) (hf : ∀ a, Steady (f a)) : Steady (r >>= f) :=
  fun s => (hf (r.run s).1 (r.run s).2).trans (hr s)

theorem of_remarks (h : Remarks (fun _ => True) r) : Steady r := by
  intro s
  obtain ⟨ds, -, hrun⟩ := h s
  rw [hrun]
  rfl

theorem of_runsWithin (h : RunsWithin r) : Steady r :=
  innermost_of_runsWithin h

theorem complain (make : Range → Diagnostic) (span : Span) : Steady (complain make span) :=
  fun _ => rfl

theorem modifyCatalog (g : Catalog → Catalog) : Steady (modifyCatalog g) :=
  fun _ => rfl

theorem mapM (as : List α) (hf : ∀ a, Steady (f a)) : Steady (as.mapM f) :=
  fun s => mapM_keeps (K := fun t => t.innermost = s.innermost)
    (fun a t ht => (hf a t).trans ht) as rfl

theorem forM {f : α → Resolver Unit} (as : List α) (hf : ∀ a, Steady (f a)) :
    Steady (as.forM f) :=
  fun s => forM_keeps (K := fun t => t.innermost = s.innermost)
    (fun a t ht => (hf a t).trans ht) as rfl

end Steady

/-! ### Expressions -/

mutual

theorem term_steady : (e : Expr) → Steady (term e)
  | .constant _ _ => .pure _
  | .name _ ident => by
    rw [term]
    refine (Steady.of_remarks (scopeColumn?_remarks ident)).bind fun column => ?_
    exact (Steady.of_remarks (columnType_remarks column)).bind fun type => .pure _
  | .dot note left right => by
    rw [term]
    exact .of_remarks (dot_remarks trivial)
  | .binary note left op right => by
    rw [term]
    refine (term_steady left).bind fun left => ?_
    have hright := term_steady right
    dsimp only
    split
    · cases right with
      | subquery rightNote select =>
        refine (Steady.of_runsWithin (query_within "subquery" select)).bind fun result => ?_
        have hcount : ∀ count : Nat, BeginsOtherwise
            s!"subquery in {op.spelling} must return exactly one column, found {count}" :=
          fun count => .append (.append (.append (.literal _ rfl) _) _) _
        refine (Steady.of_remarks (onlyColumnType_remarks _ hcount _)).bind fun type => ?_
        exact (Steady.of_remarks (requireMember_remarks _ _ _ _)).bind fun _ => .pure _
      | list rightNote items =>
        exact (memberTerms_steady left.type op items).bind fun items => .pure _
      | _ =>
        refine hright.bind fun right => ?_
        exact (Steady.of_remarks (requireMember_remarks _ _ _ _)).bind fun _ => .pure _
    · refine hright.bind fun right => ?_
      exact (Steady.of_remarks (binaryType_remarks _ _ _ _)).bind fun type => .pure _
  | .unary note op operand => by
    rw [term]
    refine (term_steady operand).bind fun operand => ?_
    exact (Steady.of_remarks (unaryType_remarks _ _ _)).bind fun type => .pure _
  | .call note function args => by
    rw [term]
    refine (terms_steady args).bind fun args => ?_
    exact (Steady.of_remarks (callType_remarks _ _ _ _)).bind fun type => .pure _
  | .callStar note function star => by
    rw [term]
    exact (Steady.of_remarks (callType_remarks _ _ _ _)).bind fun type => .pure _
  | .brackets note inner => by
    rw [term]
    exact (term_steady inner).bind fun inner => .pure _
  | .list note items => by
    rw [term]
    exact (terms_steady items).bind fun items => .pure _
  | .subquery note select => by
    rw [term]
    refine (Steady.of_runsWithin (query_within "subquery" select)).bind fun result => ?_
    have hcount : ∀ count : Nat, BeginsOtherwise
        s!"subquery must return exactly one column, found {count}" :=
      fun count => .append (.literal _ rfl) _
    exact (Steady.of_remarks (onlyColumnType_remarks _ hcount _)).bind fun type => .pure _

theorem terms_steady : (es : List Expr) → Steady (terms es)
  | [] => .pure _
  | e :: es => by
    rw [terms]
    exact (term_steady e).bind fun e => (terms_steady es).bind fun es => .pure _

theorem memberTerms_steady (left : Option SqlType) (op : BinaryOperator) :
    (es : List Expr) → Steady (memberTerms left op es)
  | [] => .pure _
  | e :: es => by
    rw [memberTerms]
    refine (term_steady e).bind fun e => ?_
    refine (Steady.of_remarks (requireMember_remarks _ _ _ _)).bind fun _ => ?_
    exact (memberTerms_steady left op es).bind fun es => .pure _

end

theorem condition_steady (clause : String) (e : Expr) : Steady (condition clause e.span (term e)) :=
  .of_runsWithin (condition_within (term_orderly e) clause e.span)

/-! ### Rules of columns and tables -/

theorem linkColumn_steady (source : Ident × Option ColumnId) (target : Option ColumnId × Span) :
    Steady (linkColumn source target) := by
  unfold linkColumn
  split
  · refine (Steady.of_remarks .catalog).bind fun c => ?_
    refine (Steady.of_remarks (requireKey_remarks _ _)).bind fun _ => ?_
    exact (Steady.of_remarks (requireReferable_remarks _ _ _)).bind fun _ => .modifyCatalog _
  · exact .pure ()

theorem foreignKey_steady (sources : List (Ident × Option ColumnId)) (clause : ForeignKeyClause) :
    Steady (foreignKey sources clause) := by
  refine (Steady.of_remarks (catalogTable?_remarks clause.table)).bind fun table? => ?_
  split
  · refine (Steady.of_remarks (keyTargets?_remarks _ clause)).bind fun targets? => ?_
    split
    · split
      · exact .complain _ _
      · exact .forM _ fun pair => linkColumn_steady pair.1 pair.2
    · exact .pure ()
  · exact .pure ()

theorem columnRule_steady (name : Ident) (column : ColumnId) (rule : ColumnRule) :
    Steady (columnRule name column rule) := by
  cases rule with
  | default value =>
    refine (term_steady value).bind fun value => ?_
    exact (Steady.of_remarks (requireStorable_remarks value column)).bind fun _ => .pure _
  | check e => exact (condition_steady "CHECK" e).bind fun e => .pure _
  | references clause => exact (foreignKey_steady _ clause).bind fun _ => .pure _
  | _ => exact .pure _

theorem tableRule_steady (table : TableId) (rule : TableRule) : Steady (tableRule table rule) := by
  have hcolumn (ident : Ident) := Steady.of_remarks (tableColumn?_remarks table ident)
  cases rule with
  | primaryKey columns => exact .pure _
  | unique columns =>
    refine (Steady.forM columns fun ident => ?_).bind fun _ => .pure _
    exact (hcolumn ident).bind fun _ => .pure ()
  | check e => exact (condition_steady "CHECK" e).bind fun e => .pure _
  | foreignKey columns clause =>
    refine (Steady.mapM columns fun ident => ?_).bind fun sources => ?_
    · exact (hcolumn ident).bind fun column => .pure _
    · exact (foreignKey_steady sources clause).bind fun _ => .pure _

/-! ### New tables -/

theorem defineColumn_steady (table : TableId) (d : ColumnDef) : Steady (defineColumn table d) := by
  refine (Steady.of_remarks (declaredType?_remarks d.typeName)).bind fun type => ?_
  have hadd (column : Column) : Steady (addColumn table column) := fun _ => rfl
  exact (hadd _).bind fun id => .pure _

theorem defineColumns_steady (table : TableId) (ds : List ColumnDef) :
    ∀ seen, Steady (defineColumns table seen ds) := by
  induction ds with
  | nil => exact fun _ => .pure _
  | cons d ds ih =>
    intro seen
    rw [defineColumns]
    dsimp only
    split
    · exact (Steady.complain _ _).bind fun _ => (ih seen).bind fun ds => .pure _
    · exact (defineColumn_steady table d).bind fun result => (ih _).bind fun ds => .pure _

theorem markPrimaryKey_steady (table : TableId) (rule : TableRule) :
    Steady (markPrimaryKey table rule) := by
  unfold markPrimaryKey
  split
  · refine .forM _ fun ident => (Steady.of_remarks (tableColumn?_remarks table ident)).bind
      fun column => ?_
    split
    · exact .modifyCatalog _
    · exact .pure ()
  · exact .pure ()

end SqlAnalysis.Resolver

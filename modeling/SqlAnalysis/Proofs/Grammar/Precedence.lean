import SqlAnalysis.Proofs.Grammar.Isolation

/-!
# Expressions are read as they group

What the parser for expressions reads is spelled by the tree it gives, and every
operation in the tree, those inside queries included, has operands that bind
tightly enough for it. It stops where no operator follows that it should have read.
-/
namespace SqlAnalysis

/-- Whether all operations in a tree are grouped. -/
def Expr.AllGrouped (e : Expr) : Prop :=
  ∀ x ∈ e.allNodes, x.IsGrouped

def Select.AllGrouped (select : Select) : Prop :=
  ∀ x ∈ select.allNodes, x.IsGrouped

section

variable {E : Expr → List Token → Prop} {S : Select → List Token → Prop} {ts : List Token}
  (hE : ∀ e ts, E e ts → e.AllGrouped) (hS : ∀ select ts, S select ts → select.AllGrouped)

theorem exprNodes_grouped {es : List Expr} (h : ∀ e ∈ es, e.AllGrouped) :
    ∀ x ∈ exprNodes es, x.IsGrouped := by
  intro x hx
  obtain ⟨e, he, hx⟩ := mem_exprNodes.mp hx
  exact h e he x hx

include hE

theorem optionNodes_grouped {kind : TokenKind} {o : Option Expr}
    (h : Optional (Preceded kind E) o ts) : ∀ x ∈ optionNodes o, x.IsGrouped := by
  intro x hx
  obtain ⟨e, he, hx⟩ := mem_optionNodes.mp hx
  exact h.all (Preceded.of hE) e he x hx

theorem columnNodes_grouped {columns : List ResultColumn}
    (h : CommaList (ResultColumn.SpelledWith E) columns ts) :
    ∀ x ∈ columnNodes columns, x.IsGrouped := by
  have hvalues : ∀ column ∈ columns, ∀ value label, column = .expr value label →
      value.AllGrouped := by
    refine h.all fun column _ hcolumn value label heq => ?_
    subst heq
    cases hcolumn with
    | expr hvalue _ => exact hE _ _ hvalue
  intro x hx
  obtain ⟨value, label, hmem, hx⟩ := mem_columnNodes.mp hx
  exact hvalues _ hmem value label rfl x hx

omit hE in
include hS in
theorem Source.allNodes_grouped {source : Source} :
    source.SpelledWith S ts → ∀ x ∈ source.allNodes, x.IsGrouped
  | .table _ _ => by simp [Source.allNodes]
  | .subquery hselect _ => by
    simp only [Source.allNodes]
    exact hselect.of hS

include hS in
theorem sourceNodes_grouped {source : Option FromClause}
    (h : Optional (Preceded (.keyword .FROM) (FromClause.SpelledWith E S)) source ts) :
    ∀ x ∈ sourceNodes source, x.IsGrouped := by
  rcases h with _ | ⟨_, ⟨hfirst, hjoins⟩⟩
  · simp [sourceNodes]
  intro x hx
  simp only [sourceNodes, List.mem_append] at hx
  rcases hx with hx | hx
  · exact Source.allNodes_grouped hS hfirst x hx
  obtain ⟨join, hmem, hx⟩ := mem_joinNodes.mp hx
  refine hjoins.all (p := fun join =>
    x ∈ join.source.allNodes ∨ x ∈ optionNodes join.on → x.IsGrouped) ?_ join hmem hx
  rintro _ _ ⟨_, _, hsource, hon⟩ (hx | hx)
  · exact Source.allNodes_grouped hS hsource x hx
  · exact optionNodes_grouped hE hon x hx

theorem groupNodes_grouped {groupBy : Option GroupBy}
    (h : Optional (GroupBy.SpelledWith E) groupBy ts) :
    ∀ x ∈ groupNodes groupBy, x.IsGrouped := by
  rcases h with _ | ⟨_, _, hexprs, hhaving⟩
  · simp [groupNodes]
  intro x hx
  simp only [groupNodes, List.mem_append] at hx
  rcases hx with hx | hx
  · exact exprNodes_grouped (hexprs.all hE) x hx
  · exact optionNodes_grouped hE hhaving x hx

theorem orderNodes_grouped {orderBy : Option OrderBy}
    (h : Optional (OrderBy.SpelledWith E) orderBy ts) :
    ∀ x ∈ orderNodes orderBy, x.IsGrouped := by
  rcases h with _ | ⟨_, _, hterms⟩
  · simp [orderNodes]
  intro x hx
  obtain ⟨term, hmem, hx⟩ := mem_termNodes.mp hx
  refine hterms.all (p := fun term => term.expr.AllGrouped) ?_ term hmem x hx
  rintro _ _ ⟨hexpr, _, _⟩
  exact hE _ _ hexpr

theorem limitNodes_grouped {limit : Option Limit}
    (h : Optional (Limit.SpelledWith E) limit ts) :
    ∀ x ∈ limitNodes limit, x.IsGrouped := by
  rcases h with _ | ⟨_, hcount⟩ | ⟨_, hcount, _, hskipped⟩ | ⟨_, hskipped, _, hcount⟩
  · simp [limitNodes]
  · simp only [limitNodes, optionNodes, List.append_nil]
    exact hE _ _ hcount
  all_goals
    intro x hx
    simp only [limitNodes, optionNodes, List.mem_append] at hx
    exact hx.elim (hE _ _ hcount x) (hE _ _ hskipped x)

end

theorem grouped_rules : Rules (fun e _ => e.AllGrouped) (fun select _ => select.AllGrouped) where
  constant _ _ := by simp [Expr.AllGrouped, Expr.allNodes, Expr.IsGrouped]
  name _ _ := by simp [Expr.AllGrouped, Expr.allNodes, Expr.IsGrouped]
  dot hleft _ _ _ := List.forall_mem_cons.mpr ⟨trivial, hleft⟩
  binary hleft _ hright hgrouped _ :=
    List.forall_mem_cons.mpr ⟨hgrouped, List.forall_mem_append.mpr ⟨hleft, hright⟩⟩
  unary _ hoperand hgrouped _ := List.forall_mem_cons.mpr ⟨hgrouped, hoperand⟩
  plus {note e _ _} _ he _ _ := by
    intro x hx
    rcases Expr.mem_allNodes_withNote hx with rfl | hx
    · exact (Expr.isGrouped_withNote note e).mpr (he e e.self_mem_allNodes)
    · exact he x hx
  call _ hargs _ := by
    cases hargs with
    | mk _ hargs _ =>
      have hall := exprNodes_grouped (hargs.all (p := Expr.AllGrouped) fun _ _ h => h)
      exact List.forall_mem_cons.mpr ⟨trivial, hall⟩
  callStar _ _ _ _ _ := by simp [Expr.AllGrouped, Expr.allNodes, Expr.IsGrouped]
  brackets hinner _ := by
    cases hinner with
    | mk _ hinner _ => exact List.forall_mem_cons.mpr ⟨trivial, hinner⟩
  list hitems _ := by
    cases hitems with
    | mk _ hitems _ =>
      have hall := exprNodes_grouped (hitems.all (p := Expr.AllGrouped) fun _ _ h => h)
      exact List.forall_mem_cons.mpr ⟨trivial, hall⟩
  subquery hselect _ := by
    cases hselect with
    | mk _ hselect _ => exact List.forall_mem_cons.mpr ⟨trivial, hselect⟩
  select hselect := by
    obtain ⟨_, _, hcolumns, hsource, hcondition, hgroupBy, horderBy, hlimit⟩ := hselect
    have hexpr : ∀ (e : Expr) (_ : List Token), e.AllGrouped → e.AllGrouped := fun _ _ h => h
    have hselect : ∀ (select : Select) (_ : List Token), select.AllGrouped → select.AllGrouped :=
      fun _ _ h => h
    intro x hx
    simp only [Select.allNodes, List.mem_append] at hx
    rcases hx with ((((hx | hx) | hx) | hx) | hx) | hx
    · exact columnNodes_grouped hexpr hcolumns x hx
    · exact sourceNodes_grouped hexpr hselect hsource x hx
    · exact optionNodes_grouped hexpr hcondition x hx
    · exact groupNodes_grouped hexpr hgroupBy x hx
    · exact orderNodes_grouped hexpr horderBy x hx
    · exact limitNodes_grouped hexpr hlimit x hx

namespace Parser

open ParserState

/-- What agreement says of a single run. -/
theorem Agree.result {α : Type} {p : Parser α} {s s' : ParserState} {a : α}
    {Q : α → List Token → List Token → Prop} (h : Agree p p s s Q) (hrun : p.run s = (.ok a, s')) :
    ∃ read, s.tokens = read ++ s'.tokens ∧ Q a read s'.tokens := by
  unfold Agree at h
  rw [hrun] at h
  cases h with
  | ok hs _ hQ => exact ⟨_, hs.tokens, hQ⟩

/-- An expression read at any place of a script, with any power. -/
theorem exprAt_spells_groups_stops {tokens skipped : List Token} {s s' : ParserState} {power : Nat}
    {e : Expr} (hs : (start tokens).Took skipped s)
    (hrun : (exprAt power).run s = (.ok e, s')) :
    ∃ read, s.tokens = read ++ s'.tokens ∧ e.Spelled read ∧ (∀ x ∈ e.allNodes, x.IsGrouped) ∧
      Stops power s'.tokens := by
  have hstep : InStep [] s s := .refl (by rw [hs.final, final_start])
  obtain ⟨read, htokens, hread⟩ := (exprAt_agree spelled_rules hstep power).result hrun
  obtain ⟨_, _, hgrouped⟩ := (exprAt_agree grouped_rules hstep power).result hrun
  exact ⟨read, htokens, hread.spelled, hgrouped.spelled, hread.stops⟩

theorem exprAt_spells_groups_stops_negation :
    let token (kind : TokenKind) : Token := ⟨kind, Span.zero, ⟨0, 0⟩, ⟨0, 0⟩, none⟩
    let s := start [token (.keyword .NOT), token (.integer 1), token .eq, token (.integer 2)]
    ∃ e s', (exprAt 0).run s = (.ok e, s') ∧
      ∃ read, s.tokens = read ++ s'.tokens ∧ e.Spelled read ∧ (∀ x ∈ e.allNodes, x.IsGrouped) ∧
        Stops 0 s'.tokens := by
  intro token s
  have hrun : (exprAt 0).run s =
      (.ok (.unary { span := Span.zero } .not
        (.binary { span := Span.zero } (.constant { span := Span.zero } (.integer 1)) .eq
          (.constant { span := Span.zero } (.integer 2)))),
        { s with tokens := [] }) := rfl
  exact ⟨_, _, hrun, exprAt_spells_groups_stops (.refl s) hrun⟩

end Parser
end SqlAnalysis

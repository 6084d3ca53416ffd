import SqlAnalysis.Proofs.Resolution.Annotation
import SqlAnalysis.Proofs.Resolution.Delivery
import SqlAnalysis.Proofs.Syntax.Outlines

/-!
# What the resolver complains about

Everything that a resolver complains about stands under a span of the tree that it was given.
Resolved parts keep their spans, so that holds as well of what is looked at after it was
resolved.
-/
namespace SqlAnalysis

namespace Outline

variable {P : Span → Prop} {o : Outline}

/-- Whether the span of an outline and those inside it have a property. -/
def Has (P : Span → Prop) (o : Outline) : Prop :=
  ∀ node ∈ o.all, P node.span

theorem has_node {s : Span} {os : List Outline} :
    (node s os).Has P ↔ P s ∧ ∀ o ∈ os, o.Has P := by
  unfold Has
  rw [all, List.forall_mem_cons]
  refine and_congr_right fun _ => ⟨fun h o ho x hx => ?_, fun h x hx => ?_⟩
  · exact h x (mem_allOfList.mpr ⟨o, ho, hx⟩)
  · obtain ⟨o, ho, hx⟩ := mem_allOfList.mp hx
    exact h o ho x hx

theorem Has.span (h : o.Has P) : P o.span :=
  h o o.self_mem_all

end Outline

namespace Resolver

open ResolverState

variable {α β : Type} {P : Span → Prop}

/-- Whether a run complains only about spans with a property. The line index, which finds
their ranges, stays as it is. -/
def BlamesOnly (P : Span → Prop) (r : Resolver α) : Prop :=
  ∀ s, (r.run s).2.index = s.index ∧ ∀ d ∈ (r.run s).2.diagnostics,
    d ∈ s.diagnostics ∨ ∃ span, P span ∧ d.range = s.index.range span

namespace BlamesOnly

variable {r : Resolver α} {f : α → Resolver β} {Q : α → Prop}

theorem pure (a : α) : BlamesOnly P (pure a) :=
  fun _ => ⟨rfl, fun _ hd => .inl hd⟩

/-- What comes second may rely on what the first gives. -/
theorem bind (hr : BlamesOnly P r) (hy : Yields r Q) (hf : ∀ a, Q a → BlamesOnly P (f a)) :
    BlamesOnly P (r >>= f) := by
  intro s
  obtain ⟨hindex, hfirst⟩ := hr s
  obtain ⟨hindex', hsecond⟩ := hf _ (hy s) (r.run s).2
  rw [hindex] at hindex' hsecond
  refine ⟨hindex', fun d hd => ?_⟩
  rcases hsecond d hd with hd | hd
  · exact hfirst d hd
  · exact .inr hd

theorem andThen (hr : BlamesOnly P r) (hf : ∀ a, BlamesOnly P (f a)) : BlamesOnly P (r >>= f) :=
  hr.bind (show Yields r fun _ => True from fun _ => trivial) fun a _ => hf a

theorem map {g : α → β} (hr : BlamesOnly P r) : BlamesOnly P (g <$> r) :=
  hr.andThen fun _ => pure _

theorem get {f : ResolverState → Resolver β} (hf : ∀ s, BlamesOnly P (f s)) :
    BlamesOnly P (MonadState.get >>= f) :=
  fun s => hf s s

/-- A change to what neither complaints nor their places depend on. -/
theorem quiet {g : ResolverState → ResolverState} (hindex : ∀ s, (g s).index = s.index)
    (hdiagnostics : ∀ s, (g s).diagnostics = s.diagnostics) :
    BlamesOnly P (modify g : Resolver Unit) :=
  fun s => ⟨hindex s, fun _ hd => .inl (hdiagnostics s ▸ hd)⟩

theorem complain {make : Range → Diagnostic} {span : Span} (hmake : ∀ r, (make r).range = r)
    (h : P span) : BlamesOnly P (Resolver.complain make span) := by
  refine fun s => ⟨rfl, fun d hd => ?_⟩
  rcases List.mem_append.mp hd with hd | hd
  · exact .inl hd
  · rw [List.mem_singleton.mp hd]
    exact .inr ⟨span, h, hmake _⟩

theorem errorWithFix {span : Span} (h : P span) (message : String) (fix : Option String) :
    BlamesOnly P (errorWithFix message span fix) :=
  complain (fun _ => rfl) h

theorem error {span : Span} (h : P span) (message : String) :
    BlamesOnly P (error message span) :=
  complain (fun _ => rfl) h

theorem warning {span : Span} (h : P span) (message : String) :
    BlamesOnly P (warning message span) :=
  complain (fun _ => rfl) h

theorem catalog : BlamesOnly P catalog :=
  get fun _ => pure _

theorem modifyFrame (f : Frame → Frame) :
    BlamesOnly P (modify fun s => s.modifyFrame f : Resolver Unit) :=
  quiet (fun s => modifyFrame_index s f) fun s => modifyFrame_diagnostics s f

theorem bindColumns (table : TableId) :
    BlamesOnly P (modify fun s => s.bindColumns table : Resolver Unit) :=
  quiet (fun s => modifyFrame_index s _) fun s => modifyFrame_diagnostics s _

theorem bindTable (name : String) (table : TableId) :
    BlamesOnly P (modify fun s => s.bindTable name table : Resolver Unit) := by
  refine quiet (fun s => ?_) fun s => ?_ <;> unfold ResolverState.bindTable
    ResolverState.bindColumns
  · rw [modifyFrame_index, modifyFrame_index]
  · rw [modifyFrame_diagnostics, modifyFrame_diagnostics]

theorem modifyCatalog (f : Catalog → Catalog) : BlamesOnly P (modifyCatalog f) :=
  quiet (fun _ => rfl) fun _ => rfl

theorem mapM {f : α → Resolver β} (as : List α) (hf : ∀ a ∈ as, BlamesOnly P (f a)) :
    BlamesOnly P (as.mapM f) := by
  induction as with
  | nil => exact pure []
  | cons a as ih =>
    obtain ⟨ha, has⟩ := List.forall_mem_cons.mp hf
    rw [List.mapM_cons]
    exact ha.andThen fun b => (ih has).andThen fun bs => pure _

theorem forM {f : α → Resolver Unit} (as : List α) (hf : ∀ a ∈ as, BlamesOnly P (f a)) :
    BlamesOnly P (as.forM f) := by
  induction as with
  | nil => exact pure ()
  | cons a as ih =>
    obtain ⟨ha, has⟩ := List.forall_mem_cons.mp hf
    exact ha.andThen fun _ => ih has

theorem within (hr : BlamesOnly P r) (span : Span) : BlamesOnly P (within span r) := by
  have henter : BlamesOnly P (modify fun s => s.enter span : Resolver Unit) :=
    quiet (fun _ => rfl) fun _ => rfl
  have hleave : BlamesOnly P (modify ResolverState.leave : Resolver Unit) :=
    quiet leave_index leave_diagnostics
  exact henter.andThen fun _ => hr.andThen fun a => hleave.andThen fun _ => pure a

/-- A complaint and a result. -/
theorem refuse {span : Span} (h : P span) (message : String) (fix : Option String) (a : α) :
    BlamesOnly P (do Resolver.errorWithFix message span fix; return a) :=
  (errorWithFix h message fix).andThen fun _ => pure a

end BlamesOnly

/-! ### Names -/

theorem catalogTable?_blames {name : Ident} (h : P name.span) :
    BlamesOnly P (catalogTable? name) := by
  refine .andThen .catalog fun c => ?_
  split
  · exact .pure _
  · exact .refuse h _ _ _
  · exact .refuse h _ none _

theorem missing_blames {span : Span} (h : P span) (wanted : Symbol → Bool) (message : String)
    (fix? : List String → Option String) (a : α) :
    BlamesOnly P (do
      if !(← get).isOpaque then
        let names ← visibleNames wanted
        errorWithFix message span (fix? names)
      return a) := by
  refine .get fun s => ?_
  split
  · exact .andThen (.get fun _ => .pure _) fun names => .refuse h _ _ _
  · exact .pure _

theorem scopeTable?_blames {name : Ident} (h : P name.span) : BlamesOnly P (scopeTable? name) := by
  refine .get fun s => ?_
  split
  · split
    · exact .pure _
    · exact .refuse h _ none _
  · exact missing_blames h _ _ _ _

theorem scopeColumn?_blames {name : Ident} (h : P name.span) :
    BlamesOnly P (scopeColumn? name) := by
  refine .get fun s => ?_
  split
  · split
    · exact .pure _
    · exact .andThen .catalog fun c => .refuse h _ none _
  · exact missing_blames h _ _ _ _

theorem tableColumn?_blames (table : TableId) {name : Ident} (h : P name.span) :
    BlamesOnly P (tableColumn? table name) := by
  refine .andThen .catalog fun c => ?_
  dsimp only
  split
  · exact .pure _
  · exact .refuse h _ _ _
  · exact .refuse h _ none _

theorem columnType_blames (column : Option ColumnId) : BlamesOnly P (columnType column) :=
  .andThen .catalog fun _ => .pure _

theorem dot_blames {note : Note} {left : Expr} {right : Ident}
    (h : (Expr.dot note left right).outline.Has P) : BlamesOnly P (dot note left right) := by
  simp only [Expr.outline, Outline.has_node, List.forall_mem_cons] at h
  obtain ⟨-, hleft, hright, -⟩ := h
  unfold dot
  split
  · next leftNote table =>
    simp only [Expr.outline, Outline.has_node, List.forall_mem_cons] at hleft
    refine (scopeTable?_blames hleft.2.1.span).andThen fun table? => ?_
    split
    · exact (tableColumn?_blames _ hright.span).andThen fun column =>
        (columnType_blames column).andThen fun type => .pure _
    · exact .pure _
  · exact .refuse (left.span_outline ▸ hleft.span) _ none _

/-! ### Types -/

theorem requireBoolean_blames (clause : String) {e : Expr} (h : P e.span) :
    BlamesOnly P (requireBoolean clause e) := by
  unfold requireBoolean
  split
  · split
    · exact .error h _
    · exact .pure ()
  · exact .pure ()

theorem requireInteger_blames {e : Expr} (h : P e.span) : BlamesOnly P (requireInteger e) := by
  unfold requireInteger
  split
  · split
    · exact .error h _
    · exact .pure ()
  · exact .pure ()

theorem requireMember_blames (left element : Option SqlType) (op : BinaryOperator) {span : Span}
    (h : P span) : BlamesOnly P (requireMember left element op span) := by
  unfold requireMember
  split
  · split
    · exact .error h _
    · exact .pure ()
  · exact .pure ()

theorem binaryType_blames (op : BinaryOperator) (left right : Option SqlType) {span : Span}
    (h : P span) : BlamesOnly P (binaryType op left right span) := by
  unfold binaryType
  split
  · dsimp only
    split
    · exact .refuse h _ none _
    · exact .pure _
  · exact .pure _

theorem unaryType_blames (op : UnaryOperator) (operand : Option SqlType) {span : Span}
    (h : P span) : BlamesOnly P (unaryType op operand span) := by
  unfold unaryType
  split
  · dsimp only
    split
    · exact .refuse h _ none _
    · exact .pure _
  · exact .pure _

theorem callType_blames {function : Ident} (hname : P function.span)
    (args : List (Option SqlType)) (star : Bool) {span : Span} (h : P span) :
    BlamesOnly P (callType function args star span) := by
  unfold callType
  split
  · exact .pure _
  · exact .refuse hname _ _ _
  · exact .refuse h _ none _
  · exact .refuse h _ none _

theorem onlyColumnType_blames (table : TableId) (message : Nat → String) {span : Span}
    (h : P span) : BlamesOnly P (onlyColumnType table fun count => error (message count) span) := by
  refine .andThen .catalog fun c => ?_
  split
  · exact .pure _
  · exact .refuse h _ none _

/-- A resolved expression has the span that it had before. -/
theorem span_of_cleared {e e' : Expr} (h : e.outline.Has P) (he : e'.cleared = e.cleared) :
    P e'.span := by
  rw [← e'.span_cleared, he, e.span_cleared, ← e.span_outline]
  exact h.span

/-- A resolved condition stands where the condition did. -/
theorem condition_blames (clause : String) {e : Expr} (h : e.outline.Has P)
    (hterm : BlamesOnly P (term e)) : BlamesOnly P (condition clause e.span (term e)) := by
  refine .within (hterm.bind (term_yields e) fun e' he => ?_) _
  exact (requireBoolean_blames clause (span_of_cleared h he)).andThen fun _ => .pure _

/-! ### Result columns and sources -/

theorem addTable_blames (name : String) (origin : TableOrigin) :
    BlamesOnly P (addTable name origin) :=
  .andThen .catalog fun _ => .andThen (.quiet (fun _ => rfl) fun _ => rfl) fun _ => .pure _

theorem addColumn_blames (table : TableId) (column : Column) :
    BlamesOnly P (addColumn table column) :=
  .andThen .catalog fun _ => .andThen (.quiet (fun _ => rfl) fun _ => rfl) fun _ => .pure _

theorem addResultColumn_blames (result : TableId) (value : Expr) (label : Option Ident) :
    BlamesOnly P (addResultColumn result value label) :=
  (addColumn_blames result _).andThen fun _ => .pure _

theorem addStar_blames (result : TableId) (hasSource : Bool) (joined : List (String × TableId))
    {span : Span} (h : P span) : BlamesOnly P (addStar result hasSource joined span) := by
  unfold addStar
  split
  · exact (BlamesOnly.error h _).andThen fun _ => .modifyCatalog _
  · exact .modifyCatalog _

theorem addTableStar_blames (result : TableId) (joined : List (String × TableId)) {name : Ident}
    (h : P name.span) : BlamesOnly P (addTableStar result joined name) := by
  unfold addTableStar
  split
  · exact .modifyCatalog _
  · exact .errorWithFix h _ _

theorem tableSource_blames {name : Ident} (h : P name.span) (label : Option Ident) :
    BlamesOnly P (tableSource name label) := by
  refine (catalogTable?_blames h).andThen fun table? => ?_
  split
  · exact .andThen (.bindTable _ _) fun _ => .pure _
  · exact .andThen (.modifyFrame _) fun _ => .pure _

theorem bindSubquery_blames (label : Option Ident) (table : TableId) :
    BlamesOnly P (bindSubquery label table) := by
  unfold bindSubquery
  split
  · exact .bindTable _ _
  · exact .bindColumns _

theorem bindAliases_blames (aliases : List (String × ColumnId)) :
    BlamesOnly P (modify fun s => aliases.foldl (fun s entry => s.bindColumn entry.1 entry.2) s :
      Resolver Unit) := by
  have hkept : ∀ s : ResolverState,
      (aliases.foldl (fun s entry => s.bindColumn entry.1 entry.2) s).index = s.index ∧
        (aliases.foldl (fun s entry => s.bindColumn entry.1 entry.2) s).diagnostics =
          s.diagnostics := by
    induction aliases with
    | nil => exact fun s => ⟨rfl, rfl⟩
    | cons entry aliases ih =>
      intro s
      obtain ⟨hindex, hdiagnostics⟩ := ih (s.bindColumn entry.1 entry.2)
      exact ⟨hindex.trans (modifyFrame_index s _),
        hdiagnostics.trans (modifyFrame_diagnostics s _)⟩
  exact .quiet (fun s => (hkept s).1) fun s => (hkept s).2

/-! ### Expressions and queries -/

/-- Whether the spans of all outlines in a list have a property. -/
abbrev AllHave (P : Span → Prop) (os : List Outline) : Prop :=
  ∀ o ∈ os, o.Has P

mutual

theorem term_blames : (e : Expr) → e.outline.Has P → BlamesOnly P (term e)
  | .constant _ _, _ => by
    rw [term]
    exact .pure _
  | .name _ _, h => by
    rw [Expr.outline, Outline.has_node, List.forall_mem_singleton] at h
    rw [term]
    exact (scopeColumn?_blames h.2.span).andThen fun column =>
      (columnType_blames column).andThen fun _ => .pure _
  | .dot note left right, h => by
    rw [term]
    exact dot_blames h
  | .binary note left op right, h => by
    rw [Expr.outline, Outline.has_node, List.forall_mem_cons, List.forall_mem_singleton] at h
    obtain ⟨hspan, hleft, hright⟩ := h
    rw [term]
    refine (term_blames left hleft).andThen fun left' => ?_
    have hordinary := term_blames right hright
    dsimp only
    split
    · cases right with
      | subquery rightNote select =>
        rw [Expr.outline, Outline.has_node, List.forall_mem_singleton] at hright
        refine (query_blames "subquery" select hright.2).andThen fun result => ?_
        refine (onlyColumnType_blames _ _ hright.1).andThen fun type => ?_
        exact (requireMember_blames _ _ _ hright.1).andThen fun _ => .pure _
      | list rightNote items =>
        rw [Expr.outline, Outline.has_node] at hright
        exact (memberTerms_blames left'.type op items hright.2).andThen fun _ => .pure _
      | _ =>
        refine hordinary.bind (term_yields _) fun right' hright' => ?_
        exact (requireMember_blames _ _ _ (span_of_cleared hright hright')).andThen fun _ => .pure _
    · exact hordinary.andThen fun right' =>
        (binaryType_blames _ _ _ hspan).andThen fun _ => .pure _
  | .unary note op operand, h => by
    rw [Expr.outline, Outline.has_node, List.forall_mem_singleton] at h
    rw [term]
    exact (term_blames operand h.2).andThen fun _ => (unaryType_blames _ _ h.1).andThen fun _ =>
      .pure _
  | .call note function args, h => by
    rw [Expr.outline, Outline.has_node, List.forall_mem_cons] at h
    rw [term]
    exact (terms_blames args h.2.2).andThen fun _ =>
      (callType_blames h.2.1.span _ _ h.1).andThen fun _ => .pure _
  | .callStar note function star, h => by
    rw [Expr.outline, Outline.has_node, List.forall_mem_cons] at h
    rw [term]
    exact (callType_blames h.2.1.span _ _ h.1).andThen fun _ => .pure _
  | .brackets note inner, h => by
    rw [Expr.outline, Outline.has_node, List.forall_mem_singleton] at h
    rw [term]
    exact (term_blames inner h.2).andThen fun _ => .pure _
  | .list note items, h => by
    rw [Expr.outline, Outline.has_node] at h
    rw [term]
    exact (terms_blames items h.2).andThen fun _ => .pure _
  | .subquery note select, h => by
    rw [Expr.outline, Outline.has_node, List.forall_mem_singleton] at h
    rw [term]
    exact (query_blames "subquery" select h.2).andThen fun _ =>
      (onlyColumnType_blames _ _ h.1).andThen fun _ => .pure _

theorem terms_blames : (es : List Expr) → AllHave P (exprOutlines es) → BlamesOnly P (terms es)
  | [], _ => by
    rw [terms]
    exact .pure _
  | e :: es, h => by
    obtain ⟨he, hes⟩ := List.forall_mem_cons.mp h
    rw [terms]
    exact (term_blames e he).andThen fun _ => (terms_blames es hes).andThen fun _ => .pure _

theorem memberTerms_blames (left : Option SqlType) (op : BinaryOperator) :
    (es : List Expr) → AllHave P (exprOutlines es) → BlamesOnly P (memberTerms left op es)
  | [], _ => by
    rw [memberTerms]
    exact .pure _
  | e :: es, h => by
    obtain ⟨he, hes⟩ := List.forall_mem_cons.mp h
    rw [memberTerms]
    refine (term_blames e he).bind (term_yields e) fun e' he' => ?_
    exact (requireMember_blames _ _ _ (span_of_cleared he he')).andThen fun _ =>
      (memberTerms_blames left op es hes).andThen fun _ => .pure _

theorem source_blames : (s : Source) → AllHave P s.outlines → BlamesOnly P (source s)
  | .table name none _, h => by
    rw [AllHave, Source.outlines, List.forall_mem_singleton, Outline.has_node,
      List.forall_mem_singleton] at h
    rw [source]
    exact tableSource_blames h.2.span none
  | .table name (some label) _, h => by
    rw [AllHave, Source.outlines, List.forall_mem_singleton, Outline.has_node,
      List.forall_mem_cons] at h
    rw [source]
    exact tableSource_blames h.2.1.span (some label)
  | .subquery select label span, h => by
    rw [AllHave, Source.outlines, List.forall_mem_cons, Outline.has_node,
      List.forall_mem_singleton] at h
    rw [source]
    exact (query_blames _ select h.1.2).andThen fun _ =>
      (bindSubquery_blames label _).andThen fun _ => .pure _

theorem joins_blames : (js : List Join) → AllHave P (joinOutlines js) → BlamesOnly P (joins js)
  | [], _ => by
    rw [joins]
    exact .pure _
  | ⟨_, _, table, none, _⟩ :: rest, h => by
    obtain ⟨hjoin, hrest⟩ := List.forall_mem_cons.mp h
    obtain ⟨-, hparts⟩ := Outline.has_node.mp hjoin
    obtain ⟨htable, -⟩ := List.forall_mem_append.mp hparts
    rw [joins]
    exact (source_blames table htable).andThen fun _ => (joins_blames rest hrest).andThen fun _ =>
      .pure _
  | ⟨_, _, table, some on, _⟩ :: rest, h => by
    obtain ⟨hjoin, hrest⟩ := List.forall_mem_cons.mp h
    obtain ⟨-, hparts⟩ := Outline.has_node.mp hjoin
    obtain ⟨htable, hon⟩ := List.forall_mem_append.mp hparts
    have hon : on.outline.Has P := List.forall_mem_singleton.mp hon
    rw [joins]
    exact (source_blames table htable).andThen fun _ =>
      (condition_blames "ON" hon (term_blames on hon)).andThen fun _ =>
        (joins_blames rest hrest).andThen fun _ => .pure _

theorem resultColumns_blames (result : TableId) (hasSource : Bool)
    (joined : List (String × TableId)) :
    (columns : List ResultColumn) → AllHave P (columnOutlines columns) →
      BlamesOnly P (resultColumns result hasSource joined columns)
  | [], _ => by
    rw [resultColumns]
    exact .pure _
  | .star span :: rest, h => by
    obtain ⟨hspan, hrest⟩ := List.forall_mem_cons.mp h
    rw [resultColumns]
    exact (addStar_blames _ _ _ hspan.span).andThen fun _ =>
      (resultColumns_blames result hasSource joined rest hrest).andThen fun _ => .pure _
  | .tableStar name :: rest, h => by
    obtain ⟨hname, hrest⟩ := List.forall_mem_cons.mp h
    rw [resultColumns]
    exact (addTableStar_blames _ _ hname.span).andThen fun _ =>
      (resultColumns_blames result hasSource joined rest hrest).andThen fun _ => .pure _
  | .expr value label :: rest, h => by
    obtain ⟨hvalue, hrest⟩ := List.forall_mem_cons.mp h
    obtain ⟨-, hrest⟩ := List.forall_mem_append.mp hrest
    rw [resultColumns]
    exact (term_blames value hvalue).andThen fun _ =>
      (addResultColumn_blames _ _ _).andThen fun _ =>
        (resultColumns_blames result hasSource joined rest hrest).andThen fun _ => .pure _

theorem orderingTerms_blames : (items : List OrderingTerm) → AllHave P (termOutlines items) →
    BlamesOnly P (orderingTerms items)
  | [], _ => by
    rw [orderingTerms]
    exact .pure _
  | ⟨expr, _, _⟩ :: rest, h => by
    obtain ⟨hexpr, hrest⟩ := List.forall_mem_cons.mp h
    rw [orderingTerms]
    exact (term_blames expr hexpr).andThen fun _ =>
      (orderingTerms_blames rest hrest).andThen fun _ => .pure _

theorem sources_blames : (clause : Option FromClause) → AllHave P (sourceOutlines clause) →
    BlamesOnly P (sources clause)
  | none, _ => by
    rw [sources]
    exact .pure _
  | some ⟨first, others⟩, h => by
    obtain ⟨hfirst, hothers⟩ := List.forall_mem_append.mp h
    rw [sources]
    exact (source_blames first hfirst).andThen fun _ =>
      (joins_blames others hothers).andThen fun _ => .pure _

theorem rowCondition_blames : (test : Option Expr) → AllHave P (optionOutlines test) →
    BlamesOnly P (rowCondition test)
  | none, _ => by
    rw [rowCondition]
    exact .pure _
  | some e, h => by
    have he : e.outline.Has P := List.forall_mem_singleton.mp h
    rw [rowCondition]
    exact (condition_blames "WHERE" he (term_blames e he)).map

theorem groups_blames : (clause : Option GroupBy) → AllHave P (groupOutlines clause) →
    BlamesOnly P (groups clause)
  | none, _ => by
    rw [groups]
    exact .pure _
  | some ⟨exprs, none, _⟩, h => by
    obtain ⟨-, hparts⟩ := Outline.has_node.mp (List.forall_mem_singleton.mp h)
    obtain ⟨hexprs, -⟩ := List.forall_mem_append.mp hparts
    rw [groups]
    exact (terms_blames exprs hexprs).andThen fun _ => .pure _
  | some ⟨exprs, some having, _⟩, h => by
    obtain ⟨-, hparts⟩ := Outline.has_node.mp (List.forall_mem_singleton.mp h)
    obtain ⟨hexprs, hhaving⟩ := List.forall_mem_append.mp hparts
    have hhaving : having.outline.Has P := List.forall_mem_singleton.mp hhaving
    rw [groups]
    exact (terms_blames exprs hexprs).andThen fun _ =>
      (condition_blames "HAVING" hhaving (term_blames having hhaving)).andThen fun _ => .pure _

theorem order_blames (aliases : List (String × ColumnId)) : (clause : Option OrderBy) →
    AllHave P (orderOutlines clause) → BlamesOnly P (order aliases clause)
  | none, _ => by
    rw [order]
    exact .pure _
  | some ⟨items, span⟩, h => by
    obtain ⟨-, hitems⟩ := Outline.has_node.mp (List.forall_mem_singleton.mp h)
    rw [order]
    exact .within ((bindAliases_blames aliases).andThen fun _ =>
      (orderingTerms_blames items hitems).andThen fun _ => .pure _) span

theorem limits_blames : (clause : Option Limit) → AllHave P (limitOutlines clause) →
    BlamesOnly P (limits clause)
  | none, _ => by
    rw [limits]
    exact .pure _
  | some ⟨count, none, _⟩, h => by
    obtain ⟨-, hparts⟩ := Outline.has_node.mp (List.forall_mem_singleton.mp h)
    obtain ⟨hcount, -⟩ := List.forall_mem_cons.mp hparts
    rw [limits]
    exact (term_blames count hcount).bind (term_yields count) fun _ hcount' =>
      (requireInteger_blames (span_of_cleared hcount hcount')).andThen fun _ => .pure _
  | some ⟨count, some offset, _⟩, h => by
    obtain ⟨-, hparts⟩ := Outline.has_node.mp (List.forall_mem_singleton.mp h)
    obtain ⟨hcount, hoffset⟩ := List.forall_mem_cons.mp hparts
    have hoffset : offset.outline.Has P := List.forall_mem_singleton.mp hoffset
    rw [limits]
    refine (term_blames count hcount).bind (term_yields count) fun _ hcount' => ?_
    refine (requireInteger_blames (span_of_cleared hcount hcount')).andThen fun _ => ?_
    refine (term_blames offset hoffset).bind (term_yields offset) fun _ hoffset' => ?_
    exact (requireInteger_blames (span_of_cleared hoffset hoffset')).andThen fun _ => .pure _

theorem query_blames (name : String) : (s : Select) → s.outline.Has P → BlamesOnly P (query name s)
  | ⟨distinct, columns, clause, test, groupBy, orderBy, limit, span, _⟩, h => by
    obtain ⟨-, hparts⟩ := Outline.has_node.mp h
    simp only [List.forall_mem_append] at hparts
    obtain ⟨⟨⟨⟨⟨hcolumns, hclause⟩, htest⟩, hgroupBy⟩, horderBy⟩, hlimit⟩ := hparts
    rw [query]
    refine .within ?_ span
    refine (sources_blames clause hclause).andThen fun sources => ?_
    refine (addTable_blames name .derived).andThen fun result => ?_
    refine (resultColumns_blames result _ _ columns hcolumns).andThen fun entries => ?_
    refine (rowCondition_blames test htest).andThen fun test' => ?_
    refine (groups_blames groupBy hgroupBy).andThen fun groupBy' => ?_
    refine (order_blames _ orderBy horderBy).andThen fun orderBy' => ?_
    exact (limits_blames limit hlimit).andThen fun _ => .pure _

end

end Resolver
end SqlAnalysis

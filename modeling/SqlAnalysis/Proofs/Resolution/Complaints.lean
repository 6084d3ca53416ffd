import SqlAnalysis.Proofs.Resolution.StatementEdits
import SqlAnalysis.Proofs.Syntax.Nodes

/-!
# Complaints about ambiguous names

A name is ambiguous when a look-up finds more than one thing: in the catalog, among
the columns of a table or in the open scopes. What is complained about besides is told
apart by its message. A resolver that only looks things up and complains changes
nothing else.
-/
namespace SqlAnalysis

/-- A message that says of a name that it stands for several tables, or of a column
that a table has several. -/
def IsAmbiguity (message : String) : Prop :=
  "ambiguous table name ".toList <+: message.toList ∨
    "ambiguous column ".toList <+: message.toList

/-- A message that begins unlike those about ambiguous names. -/
def BeginsOtherwise (message : String) : Prop :=
  ∃ c rest, message.toList = c :: rest ∧ c ≠ 'a'

theorem BeginsOtherwise.literal (text : String) (h : text.toList.head?.any (· ≠ 'a') = true) :
    BeginsOtherwise text := by
  cases htext : text.toList with
  | nil => simp [htext] at h
  | cons c rest => exact ⟨c, rest, htext, by simpa [htext] using h⟩

theorem BeginsOtherwise.append {a : String} (h : BeginsOtherwise a) (b : String) :
    BeginsOtherwise (a ++ b) := by
  obtain ⟨c, rest, h, hc⟩ := h
  exact ⟨c, rest ++ b.toList, by rw [String.toList_append, h, List.cons_append], hc⟩

theorem BeginsOtherwise.not_isAmbiguity {message : String} (h : BeginsOtherwise message) :
    ¬IsAmbiguity message := by
  obtain ⟨c, rest, h, hc⟩ := h
  unfold IsAmbiguity
  rw [h]
  simp [Ne.symm hc]

theorem not_isAmbiguity_identifier (name tables : String) :
    ¬IsAmbiguity s!"ambiguous identifier {name} (found in {tables})" := by
  simp [IsAmbiguity, String.toList_append, toString]

theorem beginsOtherwise_spelling (op : BinaryOperator) : BeginsOtherwise op.spelling := by
  cases op <;> exact .literal _ rfl

theorem beginsOtherwise_typeError (e : TypeError) : BeginsOtherwise e.message := by
  cases e <;> exact .append (.append (.literal _ rfl) _) _

/-- What may be complained about in a text over a catalog. `N` holds of the expressions
that are resolved. -/
inductive Complaint (N : Expr → Prop) (index : LineIndex) (c : Catalog) : Diagnostic → Prop
  | catalogTable (name : Ident) (h : 1 < (c.findTables name.name).length) :
    Complaint N index c
      (.semantic s!"ambiguous table name {name.name}" (index.range name.span))
  | tableColumn (table : TableId) (name : Ident) (h : 1 < (c.findColumns table name.name).length) :
    Complaint N index c (.semantic
      s!"ambiguous column {name.name} in table {(c.table table).name}" (index.range name.span))
  /-- The name before the point of a qualified name is looked up in the open scopes. -/
  | scopeTable {note nameNote : Note} {table right : Ident}
    (h : N (.dot note (.name nameNote table) right)) :
    Complaint N index c
      (.semantic s!"ambiguous table name {table.name}" (index.range table.span))
  | other {d : Diagnostic} (h : ¬IsAmbiguity d.message) : Complaint N index c d

namespace Resolver

open Catalog ResolverState

variable {α β : Type} {N : Expr → Prop} {s : ResolverState}

/-! ### Resolvers that only complain -/

/-- A run adds complaints about the catalog as it is, and changes nothing else. -/
def RemarksAt (N : Expr → Prop) (s : ResolverState) (r : Resolver α) : Prop :=
  ∃ ds, (∀ d ∈ ds, Complaint N s.index s.catalog d) ∧
    (r.run s).2 = { s with diagnostics := s.diagnostics ++ ds }

def Remarks (N : Expr → Prop) (r : Resolver α) : Prop :=
  ∀ s, RemarksAt N s r

theorem RemarksAt.view {f : ResolverState → Resolver α} (h : RemarksAt N s (f s)) :
    RemarksAt N s (get >>= f) :=
  h

theorem RemarksAt.catalog {f : Catalog → Resolver α} (h : RemarksAt N s (f s.catalog)) :
    RemarksAt N s (Resolver.catalog >>= f) :=
  h

theorem RemarksAt.complain {make : Range → Diagnostic} {span : Span}
    (h : Complaint N s.index s.catalog (make (s.index.range span))) :
    RemarksAt N s (Resolver.complain make span) :=
  ⟨[_], by simpa using h, rfl⟩

theorem RemarksAt.bind {r : Resolver α} {f : α → Resolver β} (hr : RemarksAt N s r)
    (hf : ∀ a, Remarks N (f a)) : RemarksAt N s (r >>= f) := by
  obtain ⟨ds, hds, hrun⟩ := hr
  obtain ⟨ds', hds', hrun'⟩ := hf (r.run s).1 (r.run s).2
  refine ⟨ds ++ ds', fun d hd => ?_, ?_⟩
  · rcases List.mem_append.mp hd with hd | hd
    · exact hds d hd
    · have hlater := hds' d hd
      rwa [hrun] at hlater
  · rw [run_bind, hrun', hrun]
    simp

namespace Remarks

variable {r : Resolver α} {f : α → Resolver β}

theorem pure (a : α) : Remarks N (pure a) :=
  fun s => ⟨[], by simp, by simp; rfl⟩

theorem bind (hr : Remarks N r) (hf : ∀ a, Remarks N (f a)) : Remarks N (r >>= f) :=
  fun s => (hr s).bind hf

theorem errorWithFix {message : String} (h : ¬IsAmbiguity message) (span : Span)
    (fix : Option String) : Remarks N (errorWithFix message span fix) :=
  fun _ => .complain (.other h)

theorem warning {message : String} (h : ¬IsAmbiguity message) (span : Span) :
    Remarks N (warning message span) :=
  fun _ => .complain (.other h)

/-- A complaint that is no ambiguity, and nothing else. -/
theorem refuse {message : String} (h : BeginsOtherwise message) (span : Span)
    (fix : Option String) (a : α) :
    Remarks N (do Resolver.errorWithFix message span fix; return a) :=
  (errorWithFix h.not_isAmbiguity span fix).bind fun _ => pure a

theorem catalog : Remarks N catalog :=
  fun s => ⟨[], by simp, by simp; rfl⟩

theorem mapM {f : α → Resolver β} (as : List α) (hf : ∀ a ∈ as, Remarks N (f a)) :
    Remarks N (as.mapM f) := by
  induction as with
  | nil => exact pure []
  | cons a as ih =>
    obtain ⟨ha, has⟩ := List.forall_mem_cons.mp hf
    rw [List.mapM_cons]
    exact ha.bind fun b => (ih has).bind fun bs => pure _

end Remarks

/-! ### Names -/

theorem catalogTable?_remarks (name : Ident) : Remarks N (catalogTable? name) := by
  intro s
  apply RemarksAt.catalog
  split
  · exact Remarks.pure _ s
  · exact Remarks.refuse (.append (.literal _ rfl) _) _ _ _ s
  · next hone hnone =>
    refine (RemarksAt.complain (.catalogTable name ?_)).bind fun _ => .pure _
    match hfound : s.catalog.findTables name.name with
    | [] => exact absurd hfound hnone
    | [only] => exact absurd hfound (hone only)
    | _ :: _ :: _ => simp

theorem missing_remarks (wanted : Symbol → Bool) {message : String} (h : BeginsOtherwise message)
    (span : Span) (fix? : List String → Option String) (a : α) :
    Remarks N (do
      if !(← get).isOpaque then
        let names ← visibleNames wanted
        errorWithFix message span (fix? names)
      return a) := by
  intro s
  apply RemarksAt.view
  split
  · have hnames : Remarks N (visibleNames wanted) := fun s => ⟨[], by simp, by simp; rfl⟩
    exact (hnames.bind fun names => .refuse h _ _ _) s
  · exact Remarks.pure _ s

theorem scopeTable?_remarks {note nameNote : Note} {table right : Ident}
    (h : N (.dot note (.name nameNote table) right)) : Remarks N (scopeTable? table) := by
  intro s
  apply RemarksAt.view
  split
  · split
    · exact Remarks.pure _ s
    · exact (RemarksAt.complain (.scopeTable h)).bind fun _ => .pure _
  · exact missing_remarks _ (.append (.literal _ rfl) _) _ _ _ s

theorem scopeColumn?_remarks (name : Ident) : Remarks N (scopeColumn? name) := by
  intro s
  apply RemarksAt.view
  split
  · split
    · exact Remarks.pure _ s
    · exact (Remarks.catalog.bind fun c =>
        (Remarks.errorWithFix (not_isAmbiguity_identifier _ _) _ none).bind fun _ => .pure _) s
  · exact missing_remarks _ (.append (.literal _ rfl) _) _ _ _ s

theorem tableColumn?_remarks (table : TableId) (name : Ident) :
    Remarks N (tableColumn? table name) := by
  intro s
  apply RemarksAt.catalog
  dsimp only
  split
  · exact Remarks.pure _ s
  · exact Remarks.refuse (.append (.append (.append (.literal _ rfl) _) _) _) _ _ _ s
  · next hone hnone =>
    refine (RemarksAt.complain (.tableColumn table name ?_)).bind fun _ => .pure _
    match hfound : s.catalog.findColumns table name.name with
    | [] => exact absurd hfound hnone
    | [only] => exact absurd hfound (hone only)
    | _ :: _ :: _ => simp

theorem columnType_remarks (column : Option ColumnId) : Remarks N (columnType column) :=
  .bind .catalog fun _ => .pure _

theorem dot_remarks {note : Note} {left : Expr} {right : Ident} (h : N (.dot note left right)) :
    Remarks N (dot note left right) := by
  unfold dot
  split
  · refine (scopeTable?_remarks h).bind fun table? => ?_
    split
    · apply (tableColumn?_remarks _ _).bind
      intro column
      exact (columnType_remarks column).bind fun type => .pure _
    · exact .pure _
  · exact .refuse (.literal _ rfl) _ none _

/-! ### Types -/

theorem requireBoolean_remarks {clause : String} (h : BeginsOtherwise clause) (e : Expr) :
    Remarks N (requireBoolean clause e) := by
  unfold requireBoolean
  split
  · split
    · refine .errorWithFix (BeginsOtherwise.not_isAmbiguity ?_) _ none
      exact .append (.append h _) _
    · exact .pure ()
  · exact .pure ()

theorem requireInteger_remarks (e : Expr) : Remarks N (requireInteger e) := by
  unfold requireInteger
  split
  · split
    · exact .errorWithFix (BeginsOtherwise.not_isAmbiguity (.append (.literal _ rfl) _)) _ none
    · exact .pure ()
  · exact .pure ()

theorem requireMember_remarks (left element : Option SqlType) (op : BinaryOperator)
    (span : Span) : Remarks N (requireMember left element op span) := by
  unfold requireMember
  split
  · split
    · refine .errorWithFix (BeginsOtherwise.not_isAmbiguity ?_) _ none
      exact .append (.append (.append (.append (beginsOtherwise_spelling op) _) _) _) _
    · exact .pure ()
  · exact .pure ()

theorem binaryType_remarks (op : BinaryOperator) (left right : Option SqlType) (span : Span) :
    Remarks N (binaryType op left right span) := by
  unfold binaryType
  split
  · dsimp only
    split
    · refine .refuse ?_ _ none _
      exact .append (.append (.append (.append (.append (.literal _ rfl) _) _) _) _) _
    · exact .pure _
  · exact .pure _

theorem unaryType_remarks (op : UnaryOperator) (operand : Option SqlType) (span : Span) :
    Remarks N (unaryType op operand span) := by
  unfold unaryType
  split
  · dsimp only
    split
    · exact .refuse (.append (.append (.append (.literal _ rfl) _) _) _) _ none _
    · exact .pure _
  · exact .pure _

theorem callType_remarks (function : Ident) (args : List (Option SqlType)) (star : Bool)
    (span : Span) : Remarks N (callType function args star span) := by
  unfold callType
  split
  · exact .pure _
  · exact .refuse (.append (.literal _ rfl) _) _ _ _
  · refine .refuse ?_ _ none _
    exact .append (.append (.append (.append (.append (.literal _ rfl) _) _) _) _) _
  · refine .refuse ?_ _ none _
    exact .append (.append (.append (.append (.append (.literal _ rfl) _) _) _) _) _

theorem onlyColumnType_remarks (table : TableId) {message : Nat → String}
    (h : ∀ count, BeginsOtherwise (message count)) (span : Span) :
    Remarks N (onlyColumnType table fun count => error (message count) span) := by
  apply Remarks.catalog.bind
  intro c
  split
  · exact .pure _
  · exact .refuse (h _) _ none _

/-! ### Rows and tables -/

theorem requireStorable_remarks (value : Expr) (column : ColumnId) :
    Remarks N (requireStorable value column) := by
  apply Remarks.catalog.bind
  intro c
  dsimp only
  split
  · exact .pure ()
  · split
    · split
      · refine .errorWithFix (BeginsOtherwise.not_isAmbiguity ?_) _ _
        exact .append (.append (.append (.append (.append (.literal _ rfl) _) _) _) _) _
      · exact .pure ()
    · split
      · split
        · refine .errorWithFix (BeginsOtherwise.not_isAmbiguity ?_) _ _
          exact .append (.append (.append (.append (.append (.literal _ rfl) _) _) _) _) _
        · exact .pure ()
      · exact .pure ()

theorem requireUnlisted_remarks (seen : List String) (ident : Ident) :
    Remarks N (requireUnlisted seen ident) := by
  unfold requireUnlisted
  split
  · refine .errorWithFix (BeginsOtherwise.not_isAmbiguity ?_) _ none
    exact .append (.append (.literal _ rfl) _) _
  · exact .pure ()

theorem listedColumns_remarks (table : TableId) (idents : List Ident) :
    ∀ seen, Remarks N (listedColumns table seen idents) := by
  induction idents with
  | nil => exact fun _ => .pure _
  | cons ident idents ih =>
    intro seen
    rw [listedColumns]
    apply (requireUnlisted_remarks seen ident).bind
    intro _
    apply (tableColumn?_remarks table ident).bind
    intro column
    exact (ih _).bind fun results => .pure _

theorem insertTargets_remarks (table : TableId) (columns : List Ident) :
    Remarks N (insertTargets table columns) := by
  unfold insertTargets
  split
  · exact Remarks.catalog.bind fun c => .pure _
  · exact listedColumns_remarks table columns []

theorem requireLength_remarks (targets : List ColumnId) (row : ValueRow) :
    Remarks N (requireLength targets row) := by
  unfold requireLength
  split
  · refine .errorWithFix (BeginsOtherwise.not_isAmbiguity ?_) _ none
    exact .append (.append (.append (.literal _ rfl) _) _) _
  · exact .pure ()

theorem declaredType?_remarks (typeName : Option TypeName) :
    Remarks N (declaredType? typeName) := by
  unfold declaredType?
  split
  · exact .pure _
  · split
    · exact .pure _
    · exact .refuse (beginsOtherwise_typeError _) _ none _

theorem keyTargets?_remarks (table : TableId) (clause : ForeignKeyClause) :
    Remarks N (keyTargets? table clause) := by
  unfold keyTargets?
  split
  · apply Remarks.catalog.bind
    intro c
    split
    · exact .pure _
    · exact .refuse (.append (.append (.literal _ rfl) _) _) _ none _
  · refine (Remarks.mapM _ fun ident _ => ?_).bind fun targets => .pure _
    exact (tableColumn?_remarks table ident).bind fun column => .pure _

theorem requireKey_remarks (referenced : Column) (place : Span) :
    Remarks N (requireKey referenced place) := by
  unfold requireKey
  split
  · exact .warning (BeginsOtherwise.not_isAmbiguity (.literal _ rfl)) _
  · exact .pure ()

theorem requireReferable_remarks (name : Ident) (column referenced : Column) :
    Remarks N (requireReferable name column referenced) := by
  unfold requireReferable
  split
  · split
    · refine .errorWithFix (BeginsOtherwise.not_isAmbiguity ?_) _ none
      exact .append (.append (.append (.append (.append (.append (.literal _ rfl) _) _) _) _) _) _
    · exact .pure ()
  · exact .pure ()

end Resolver
end SqlAnalysis

import SqlAnalysis.Proofs.Resolution.Delivery
import SqlAnalysis.Proofs.Resolution.QueryStages
import SqlAnalysis.Proofs.Resolution.Visibility
import SqlAnalysis.Proofs.Syntax.Nodes

/-!
# Silence after an unknown source

Any name may come from a source that is unknown. So where an open scope has one, a name that
is not found there is not complained about. What is looked up elsewhere is: the sources of
queries further inside, in the catalog, and the table before a star, among the sources of
its query.
-/
namespace SqlAnalysis

/-! ### Messages about unknown names -/

/-- A message that says of a name that no table, or no column in the open scopes, has it. -/
def IsUnknownName (message : String) : Prop :=
  "unknown table ".toList <+: message.toList ∨ "unknown identifier ".toList <+: message.toList

/-- Whether neither of two texts goes on with the other. -/
def PartsFrom (text start : List Char) : Bool :=
  !text.isPrefixOf start && !start.isPrefixOf text

/-- A message that begins unlike those about unknown names. -/
def BeginsKnown (message : String) : Prop :=
  ∃ text, text <+: message.toList ∧ PartsFrom text "unknown table ".toList = true ∧
    PartsFrom text "unknown identifier ".toList = true

theorem not_prefix_of_partsFrom {text start message : List Char} (h : PartsFrom text start = true)
    (htext : text <+: message) : ¬start <+: message := by
  intro hstart
  simp only [PartsFrom, Bool.and_eq_true, Bool.not_eq_true', ← Bool.not_eq_true,
    List.isPrefixOf_iff_prefix] at h
  rcases List.prefix_or_prefix_of_prefix htext hstart with hprefix | hprefix
  · exact h.1 hprefix
  · exact h.2 hprefix

namespace BeginsKnown

theorem literal (text : String) (h : PartsFrom text.toList "unknown table ".toList = true)
    (h' : PartsFrom text.toList "unknown identifier ".toList = true) : BeginsKnown text :=
  ⟨text.toList, List.prefix_refl _, h, h'⟩

theorem append {a : String} (h : BeginsKnown a) (b : String) : BeginsKnown (a ++ b) := by
  obtain ⟨text, htext, h, h'⟩ := h
  refine ⟨text, ?_, h, h'⟩
  rw [String.toList_append]
  exact htext.trans (List.prefix_append _ _)

theorem not_isUnknownName {message : String} (h : BeginsKnown message) :
    ¬IsUnknownName message := by
  obtain ⟨text, htext, h, h'⟩ := h
  rintro (htable | hidentifier)
  · exact not_prefix_of_partsFrom h htext htable
  · exact not_prefix_of_partsFrom h' htext hidentifier

end BeginsKnown

theorem beginsKnown_spelling (op : BinaryOperator) : BeginsKnown op.spelling := by
  cases op <;> exact .literal _ rfl rfl

/-- What may be complained about where an open scope has an unknown source. `N` holds of the
tables that are not looked up in the open scopes. -/
inductive Murmur (N : Lookup → Prop) (index : LineIndex) (c : Catalog) : Diagnostic → Prop
  | source {table : Ident} (fix : Option String) (h : N (.source table))
    (hnone : c.findTables table.name = []) : Murmur N index c
      { Diagnostic.semantic s!"unknown table {table.name}" (index.range table.span) with
        quickFix := fix }
  | star {table : Ident} (fix : Option String) (h : N (.star table)) : Murmur N index c
      { Diagnostic.semantic s!"unknown table {table.name}" (index.range table.span) with
        quickFix := fix }
  | other {d : Diagnostic} (h : ¬IsUnknownName d.message) : Murmur N index c d

theorem Murmur.congr {N : Lookup → Prop} {index : LineIndex} {c c' : Catalog} {d : Diagnostic}
    (h : Murmur N index c d) (hnamed : c'.named = c.named) : Murmur N index c' d := by
  cases h with
  | source fix hN hnone =>
    unfold Catalog.findTables at hnone
    exact .source fix hN (by rw [Catalog.findTables, hnamed, hnone])
  | star fix hN => exact .star fix hN
  | other hknown => exact .other hknown

namespace ResolverState

variable {s t u : ResolverState}

/-- Whether each open scope, innermost first, has an unknown source. -/
def marks (s : ResolverState) : List Bool :=
  s.allFrames.map Frame.opaqueSource

/-- The second state has as many scopes open as the first and an unknown source in each that
had one, and its catalog finds the same tables. -/
structure Clouds (s t : ResolverState) : Prop where
  index : t.index = s.index
  named : t.catalog.named = s.catalog.named
  length : t.marks.length = s.marks.length
  marks : ∀ i : Nat, s.marks[i]? = some true → t.marks[i]? = some true

theorem isOpaque_iff (s : ResolverState) : s.isOpaque = true ↔ ∃ i : Nat, s.marks[i]? = some true := by
  rw [← List.mem_iff_getElem?, marks, List.mem_map, isOpaque, List.any_eq_true]

namespace Clouds

theorem of_marks (hindex : t.index = s.index) (hnamed : t.catalog.named = s.catalog.named)
    (hmarks : t.marks = s.marks) : s.Clouds t :=
  ⟨hindex, hnamed, by rw [hmarks], fun i h => by rwa [hmarks]⟩

theorem refl (s : ResolverState) : s.Clouds s :=
  of_marks rfl rfl rfl

theorem trans (h : s.Clouds t) (h' : t.Clouds u) : s.Clouds u where
  index := h'.index.trans h.index
  named := h'.named.trans h.named
  length := h'.length.trans h.length
  marks i hi := h'.marks i (h.marks i hi)

theorem isOpaque (h : s.Clouds t) (hs : s.isOpaque = true) : t.isOpaque = true := by
  obtain ⟨i, hi⟩ := s.isOpaque_iff.mp hs
  exact t.isOpaque_iff.mpr ⟨i, h.marks i hi⟩

end Clouds

/-! ### Open scopes -/

theorem marks_modifyFrame (s : ResolverState) (f : Frame → Frame) :
    ∃ frame rest, s.marks = frame.opaqueSource :: rest ∧
      (s.modifyFrame f).marks = (f frame).opaqueSource :: rest := by
  unfold marks allFrames modifyFrame
  cases s.frames with
  | nil => exact ⟨s.root, [], rfl, rfl⟩
  | cons frame outer => exact ⟨frame, (outer ++ [s.root]).map Frame.opaqueSource, rfl, rfl⟩

theorem clouds_modifyFrame (s : ResolverState) {f : Frame → Frame}
    (hf : ∀ frame, frame.opaqueSource = true → (f frame).opaqueSource = true) :
    s.Clouds (s.modifyFrame f) := by
  obtain ⟨frame, rest, hbefore, hafter⟩ := s.marks_modifyFrame f
  refine ⟨modifyFrame_index s f, congrArg Catalog.named (modifyFrame_catalog s f), ?_, ?_⟩
  · rw [hbefore, hafter, List.length_cons, List.length_cons]
  · intro i hi
    rw [hbefore] at hi
    rw [hafter]
    cases i with
    | zero => exact congrArg some (hf frame (Option.some.inj hi))
    | succ i => exact hi

theorem marks_enter (s : ResolverState) (span : Span) : (s.enter span).marks = false :: s.marks :=
  rfl

theorem marks_leave (s : ResolverState) (h : s.frames ≠ []) : s.leave.marks = s.marks.tail := by
  obtain ⟨frame, outer, hframes⟩ := List.exists_cons_of_ne_nil h
  unfold leave
  rw [hframes]
  obtain ⟨next, rest, hbefore, hafter⟩ := marks_modifyFrame { s with frames := outer } fun f =>
    { f with children := f.children ++ [frame.toTree] }
  rw [hafter, ← hbefore]
  unfold marks allFrames
  rw [hframes]
  rfl

/-- What becomes unknown in a scope of its own does not matter outside of it. -/
theorem Clouds.leave {span : Span} (h : (s.enter span).Clouds t) : s.Clouds t.leave := by
  have hopen : t.frames ≠ [] := by
    intro hnil
    have hlength := h.length
    simp [ResolverState.marks, allFrames, enter, hnil] at hlength
  refine ⟨(leave_index t).trans h.index, ?_, ?_, fun i hi => ?_⟩
  · rw [leave_catalog]
    exact h.named
  · rw [marks_leave t hopen, List.length_tail, h.length, marks_enter, List.length_cons,
      Nat.add_sub_cancel]
  · rw [marks_leave t hopen, List.getElem?_tail]
    exact h.marks (i + 1) hi

end ResolverState

namespace Resolver

open ResolverState

variable {α β : Type} {N : Lookup → Prop}

/-- A run keeps the marks of the open scopes and the tables that can be found. If an open
scope has an unknown source, it says of names only what may be said there. -/
def HushesAt (N : Lookup → Prop) (s : ResolverState) (r : Resolver α) : Prop :=
  s.Clouds (r.run s).2 ∧ (s.isOpaque = true → ∃ ds,
    (r.run s).2.diagnostics = s.diagnostics ++ ds ∧ ∀ d ∈ ds, Murmur N s.index s.catalog d)

def Hushes (N : Lookup → Prop) (r : Resolver α) : Prop :=
  ∀ s, HushesAt N s r

namespace HushesAt

variable {s : ResolverState} {r : Resolver α} {f : α → Resolver β}

theorem bind (hr : HushesAt N s r) (hf : ∀ a, Hushes N (f a)) : HushesAt N s (r >>= f) := by
  obtain ⟨hclouds, hfirst⟩ := hr
  obtain ⟨hclouds', hsecond⟩ := hf (r.run s).1 (r.run s).2
  refine ⟨hclouds.trans hclouds', fun hs => ?_⟩
  obtain ⟨ds, hds, hmurmurs⟩ := hfirst hs
  obtain ⟨ds', hds', hmurmurs'⟩ := hsecond (hclouds.isOpaque hs)
  refine ⟨ds ++ ds', ?_, List.forall_mem_append.mpr ⟨hmurmurs, fun d hd => ?_⟩⟩
  · rw [run_bind, hds', hds, List.append_assoc]
  · have hmurmur := hmurmurs' d hd
    rw [hclouds.index] at hmurmur
    exact hmurmur.congr hclouds.named.symm

theorem view {f : ResolverState → Resolver β} (h : HushesAt N s (f s)) :
    HushesAt N s (get >>= f) :=
  h

theorem catalog {f : Catalog → Resolver β} (h : HushesAt N s (f s.catalog)) :
    HushesAt N s (Resolver.catalog >>= f) :=
  h

theorem complain {make : Range → Diagnostic} {span : Span}
    (h : Murmur N s.index s.catalog (make (s.index.range span))) :
    HushesAt N s (Resolver.complain make span) :=
  ⟨.of_marks rfl rfl rfl, fun _ => ⟨[_], rfl, List.forall_mem_singleton.mpr h⟩⟩

end HushesAt

namespace Hushes

variable {r : Resolver α} {f : α → Resolver β}

/-- A run that complains of nothing. -/
theorem quiet (hclouds : ∀ s : ResolverState, s.Clouds (r.run s).2)
    (hdiagnostics : ∀ s, (r.run s).2.diagnostics = s.diagnostics) : Hushes N r :=
  fun s => ⟨hclouds s, fun _ => ⟨[], (hdiagnostics s).trans (List.append_nil _).symm,
    List.forall_mem_nil _⟩⟩

theorem pure (a : α) : Hushes N (pure a) :=
  quiet (fun s => .refl s) fun _ => rfl

theorem bind (hr : Hushes N r) (hf : ∀ a, Hushes N (f a)) : Hushes N (r >>= f) :=
  fun s => (hr s).bind hf

theorem map {g : α → β} (hr : Hushes N r) : Hushes N (g <$> r) :=
  hr.bind fun _ => pure _

theorem errorWithFix {message : String} (h : BeginsKnown message) (span : Span)
    (fix : Option String) : Hushes N (errorWithFix message span fix) :=
  fun _ => .complain (.other h.not_isUnknownName)

theorem error {message : String} (h : BeginsKnown message) (span : Span) :
    Hushes N (error message span) :=
  fun _ => .complain (.other h.not_isUnknownName)

/-- A complaint about something else than an unknown name, and a result. -/
theorem refuse {message : String} (h : BeginsKnown message) (span : Span) (fix : Option String)
    (a : α) : Hushes N (do Resolver.errorWithFix message span fix; return a) :=
  (errorWithFix h span fix).bind fun _ => pure a

theorem catalog : Hushes N catalog :=
  fun s => HushesAt.view (pure s.catalog s)

theorem modifyCatalog {g : Catalog → Catalog} (h : ∀ c, (g c).named = c.named) :
    Hushes N (modifyCatalog g) :=
  quiet (fun s => .of_marks rfl (h s.catalog) rfl) fun _ => rfl

theorem modifyFrame {g : ResolverState → Frame → Frame}
    (h : ∀ s frame, frame.opaqueSource = true → (g s frame).opaqueSource = true) :
    Hushes N (modify fun s => s.modifyFrame (g s) : Resolver Unit) :=
  quiet (fun s => clouds_modifyFrame s (h s)) fun _ => modifyFrame_diagnostics _ _

theorem within (hr : Hushes N r) (span : Span) : Hushes N (within span r) := by
  intro s
  obtain ⟨hclouds, hmurmurs⟩ := hr (s.enter span)
  refine ⟨hclouds.leave, fun hs => ?_⟩
  have hopaque : (s.enter span).isOpaque = true := by
    obtain ⟨i, hi⟩ := s.isOpaque_iff.mp hs
    exact (isOpaque_iff _).mpr ⟨i + 1, hi⟩
  rw [run_within, leave_diagnostics]
  exact hmurmurs hopaque

end Hushes

/-! ### Names -/

theorem catalogTable?_hushes {name : Ident} (h : N (.source name)) :
    Hushes N (catalogTable? name) := by
  intro s
  apply HushesAt.catalog
  split
  · exact Hushes.pure _ s
  · next hnone => exact (HushesAt.complain (.source _ h hnone)).bind fun _ => .pure _
  · exact Hushes.refuse (.append (.literal _ rfl rfl) _) _ none _ s

/-- What is not found in the open scopes is passed over if one of them has an unknown source. -/
theorem missing_hushes (wanted : Symbol → Bool) (message : String) (span : Span)
    (fix? : List String → Option String) (a : α) :
    Hushes N (do
      if !(← get).isOpaque then
        let names ← visibleNames wanted
        errorWithFix message span (fix? names)
      return a) := by
  intro s
  apply HushesAt.view
  split
  · next hclear =>
    refine ⟨.of_marks rfl rfl rfl, fun hs => ?_⟩
    rw [hs] at hclear
    cases hclear
  · exact Hushes.pure _ s

theorem scopeTable?_hushes (name : Ident) : Hushes N (scopeTable? name) := by
  intro s
  apply HushesAt.view
  split
  · split
    · exact Hushes.pure _ s
    · exact Hushes.refuse (.append (.literal _ rfl rfl) _) _ none _ s
  · exact missing_hushes _ _ _ _ _ s

theorem scopeColumn?_hushes (name : Ident) : Hushes N (scopeColumn? name) := by
  intro s
  apply HushesAt.view
  split
  · split
    · exact Hushes.pure _ s
    · refine (Hushes.catalog.bind fun c => .refuse ?_ _ none _) s
      exact .append (.append (.append (.append (.literal _ rfl rfl) _) _) _) _
  · exact missing_hushes _ _ _ _ _ s

theorem tableColumn?_hushes (table : TableId) (name : Ident) :
    Hushes N (tableColumn? table name) := by
  refine Hushes.catalog.bind fun c => ?_
  dsimp only
  split
  · exact .pure _
  · exact .refuse (.append (.append (.append (.literal _ rfl rfl) _) _) _) _ _ _
  · exact .refuse (.append (.append (.append (.literal _ rfl rfl) _) _) _) _ none _

theorem columnType_hushes (column : Option ColumnId) : Hushes N (columnType column) :=
  Hushes.catalog.bind fun _ => .pure _

theorem dot_hushes (note : Note) (left : Expr) (right : Ident) :
    Hushes N (dot note left right) := by
  unfold dot
  split
  · refine (scopeTable?_hushes _).bind fun table? => ?_
    split
    · exact (tableColumn?_hushes _ _).bind fun column =>
        (columnType_hushes column).bind fun type => .pure _
    · exact .pure _
  · exact .refuse (.literal _ rfl rfl) _ none _

/-! ### Types -/

theorem requireBoolean_hushes {clause : String} (h : BeginsKnown clause) (e : Expr) :
    Hushes N (requireBoolean clause e) := by
  unfold requireBoolean
  split
  · split
    · exact .error (.append (.append h _) _) _
    · exact .pure ()
  · exact .pure ()

theorem requireInteger_hushes (e : Expr) : Hushes N (requireInteger e) := by
  unfold requireInteger
  split
  · split
    · exact .error (.append (.literal _ rfl rfl) _) _
    · exact .pure ()
  · exact .pure ()

theorem requireMember_hushes (left element : Option SqlType) (op : BinaryOperator)
    (span : Span) : Hushes N (requireMember left element op span) := by
  unfold requireMember
  split
  · split
    · refine .error ?_ _
      exact .append (.append (.append (.append (beginsKnown_spelling op) _) _) _) _
    · exact .pure ()
  · exact .pure ()

theorem binaryType_hushes (op : BinaryOperator) (left right : Option SqlType) (span : Span) :
    Hushes N (binaryType op left right span) := by
  unfold binaryType
  split
  · dsimp only
    split
    · refine .refuse ?_ _ none _
      exact .append (.append (.append (.append (.append (.literal _ rfl rfl) _) _) _) _) _
    · exact .pure _
  · exact .pure _

theorem unaryType_hushes (op : UnaryOperator) (operand : Option SqlType) (span : Span) :
    Hushes N (unaryType op operand span) := by
  unfold unaryType
  split
  · dsimp only
    split
    · exact .refuse (.append (.append (.append (.literal _ rfl rfl) _) _) _) _ none _
    · exact .pure _
  · exact .pure _

theorem callType_hushes (function : Ident) (args : List (Option SqlType)) (star : Bool)
    (span : Span) : Hushes N (callType function args star span) := by
  unfold callType
  split
  · exact .pure _
  · exact .refuse (.append (.literal _ rfl rfl) _) _ _ _
  · refine .refuse ?_ _ none _
    exact .append (.append (.append (.append (.append (.literal _ rfl rfl) _) _) _) _) _
  · refine .refuse ?_ _ none _
    exact .append (.append (.append (.append (.append (.literal _ rfl rfl) _) _) _) _) _

theorem onlyColumnType_hushes (table : TableId) {message : Nat → String}
    (h : ∀ count, BeginsKnown (message count)) (span : Span) :
    Hushes N (onlyColumnType table fun count => error (message count) span) := by
  refine Hushes.catalog.bind fun c => ?_
  split
  · exact .pure _
  · exact .refuse (h _) _ none _

theorem condition_hushes {clause : String} (hclause : BeginsKnown clause) (span : Span)
    {resolved : Resolver Expr} (h : Hushes N resolved) :
    Hushes N (condition clause span resolved) :=
  .within (h.bind fun e => (requireBoolean_hushes hclause e).bind fun _ => .pure _) span

/-! ### Result columns and sources -/

theorem named_addColumn (c : Catalog) (table : TableId) (column : Column) :
    (c.addColumn table column).2.named = c.named :=
  rfl

theorem named_copyColumns (c : Catalog) (source target : TableId) :
    (c.copyColumns source target).named = c.named := by
  unfold Catalog.copyColumns
  generalize (c.table source).columns = ids
  suffices h : ∀ copied : Catalog, copied.named = c.named →
      (ids.foldl (fun copied id =>
        let column := c.column id
        let copy := Column.plain column.name column.type target
        (copied.addColumn target { copy with primaryKey := column.primaryKey }).2) copied).named =
        c.named from h c rfl
  induction ids with
  | nil => exact fun _ h => h
  | cons id ids ih => exact fun copied h => ih _ h

theorem addResult_hushes (name : String) : Hushes N (addTable name .derived) :=
  .quiet (fun _ => .of_marks rfl rfl rfl) fun _ => rfl

theorem addResultColumn_hushes (result : TableId) (value : Expr) (label : Option Ident) :
    Hushes N (addResultColumn result value label) :=
  .quiet (fun _ => .of_marks rfl rfl rfl) fun _ => rfl

theorem addStar_hushes (result : TableId) (hasSource : Bool) (joined : List (String × TableId))
    (span : Span) : Hushes N (addStar result hasSource joined span) := by
  have hcopies : ∀ c : Catalog,
      (joined.foldl (fun c entry => c.copyColumns entry.2 result) c).named = c.named := by
    induction joined with
    | nil => exact fun _ => rfl
    | cons entry joined ih => exact fun c => (ih _).trans (named_copyColumns c _ _)
  unfold addStar
  split
  · exact (Hushes.error (.literal _ rfl rfl) _).bind fun _ => .modifyCatalog hcopies
  · exact .modifyCatalog hcopies

theorem addTableStar_hushes (result : TableId) (joined : List (String × TableId)) {name : Ident}
    (h : N (.star name)) : Hushes N (addTableStar result joined name) := by
  unfold addTableStar
  split
  · exact .modifyCatalog fun c => named_copyColumns c _ _
  · exact fun _ => .complain (.star _ h)

theorem bindTable_hushes (name : String) (table : TableId) :
    Hushes N (modify fun s => s.bindTable name table : Resolver Unit) := by
  refine .quiet (fun s => ?_) fun s => (modifyFrame_diagnostics _ _).trans ?_
  · have htable : s.Clouds (s.modifyFrame fun f => { f with scope := f.scope.bindTable name table }) :=
      clouds_modifyFrame s fun _ h => h
    exact htable.trans (clouds_modifyFrame _ fun _ h => h)
  · exact modifyFrame_diagnostics _ _

theorem tableSource_hushes {name : Ident} (h : N (.source name)) (label : Option Ident) :
    Hushes N (tableSource name label) := by
  refine (catalogTable?_hushes h).bind fun table? => ?_
  split
  · exact (bindTable_hushes _ _).bind fun _ => .pure _
  · exact (Hushes.modifyFrame fun _ _ _ => rfl).bind fun _ => .pure _

theorem bindSubquery_hushes (label : Option Ident) (table : TableId) :
    Hushes N (bindSubquery label table) := by
  unfold bindSubquery
  split
  · exact bindTable_hushes _ _
  · exact .modifyFrame fun _ _ h => h

theorem bindAliases_hushes (aliases : List (String × ColumnId)) :
    Hushes N (modify fun s => aliases.foldl (fun s entry => s.bindColumn entry.1 entry.2) s :
      Resolver Unit) := by
  have hkept : ∀ s : ResolverState,
      s.Clouds (aliases.foldl (fun s entry => s.bindColumn entry.1 entry.2) s) ∧
        (aliases.foldl (fun s entry => s.bindColumn entry.1 entry.2) s).diagnostics =
          s.diagnostics := by
    induction aliases with
    | nil => exact fun s => ⟨.refl s, rfl⟩
    | cons entry aliases ih =>
      intro s
      obtain ⟨hclouds, hdiagnostics⟩ := ih (s.bindColumn entry.1 entry.2)
      have hcolumn : s.Clouds (s.bindColumn entry.1 entry.2) := clouds_modifyFrame s fun _ h => h
      exact ⟨hcolumn.trans hclouds, hdiagnostics.trans (modifyFrame_diagnostics s _)⟩
  exact .quiet (fun s => (hkept s).1) fun s => (hkept s).2

/-! ### Expressions and queries -/

mutual

theorem term_hushes : (e : Expr) → (∀ x ∈ e.lookups, N x) → Hushes N (term e)
  | .constant _ _, _ => by
    rw [term]
    exact .pure _
  | .name _ ident, _ => by
    rw [term]
    exact (scopeColumn?_hushes ident).bind fun column =>
      (columnType_hushes column).bind fun type => .pure _
  | .dot note left right, _ => by
    rw [term]
    exact dot_hushes note left right
  | .binary note left op right, h => by
    rw [Expr.lookups, List.forall_mem_append] at h
    obtain ⟨hleft, hright⟩ := h
    rw [term]
    refine (term_hushes left hleft).bind fun left' => ?_
    have hordinary := term_hushes right hright
    dsimp only
    split
    · cases right with
      | subquery rightNote select =>
        refine (query_hushes "subquery" select hright).bind fun result => ?_
        refine (onlyColumnType_hushes _ (fun count => ?_) _).bind fun type => ?_
        · exact .append (.append (.append (.literal _ rfl rfl) _) _) _
        · exact (requireMember_hushes _ _ _ _).bind fun _ => .pure _
      | list rightNote items =>
        exact (memberTerms_hushes left'.type op items hright).bind fun items => .pure _
      | _ => exact hordinary.bind fun right' => (requireMember_hushes _ _ _ _).bind fun _ => .pure _
    · exact hordinary.bind fun right' => (binaryType_hushes _ _ _ _).bind fun type => .pure _
  | .unary note op operand, h => by
    rw [Expr.lookups] at h
    rw [term]
    exact (term_hushes operand h).bind fun operand => (unaryType_hushes _ _ _).bind fun type =>
      .pure _
  | .call note function args, h => by
    rw [Expr.lookups] at h
    rw [term]
    exact (terms_hushes args h).bind fun args => (callType_hushes _ _ _ _).bind fun type => .pure _
  | .callStar note function star, _ => by
    rw [term]
    exact (callType_hushes _ _ _ _).bind fun type => .pure _
  | .brackets note inner, h => by
    rw [Expr.lookups] at h
    rw [term]
    exact (term_hushes inner h).bind fun inner => .pure _
  | .list note items, h => by
    rw [Expr.lookups] at h
    rw [term]
    exact (terms_hushes items h).bind fun items => .pure _
  | .subquery note select, h => by
    rw [Expr.lookups] at h
    rw [term]
    refine (query_hushes "subquery" select h).bind fun result => ?_
    refine (onlyColumnType_hushes _ (fun count => ?_) _).bind fun type => .pure _
    exact .append (.literal _ rfl rfl) _

theorem terms_hushes : (es : List Expr) → (∀ x ∈ exprLookups es, N x) → Hushes N (terms es)
  | [], _ => by
    rw [terms]
    exact .pure _
  | e :: es, h => by
    rw [exprLookups, List.forall_mem_append] at h
    rw [terms]
    exact (term_hushes e h.1).bind fun e => (terms_hushes es h.2).bind fun es => .pure _

theorem memberTerms_hushes (left : Option SqlType) (op : BinaryOperator) :
    (es : List Expr) → (∀ x ∈ exprLookups es, N x) → Hushes N (memberTerms left op es)
  | [], _ => by
    rw [memberTerms]
    exact .pure _
  | e :: es, h => by
    rw [exprLookups, List.forall_mem_append] at h
    rw [memberTerms]
    refine (term_hushes e h.1).bind fun e => ?_
    refine (requireMember_hushes _ _ _ _).bind fun _ => ?_
    exact (memberTerms_hushes left op es h.2).bind fun es => .pure _

theorem source_hushes : (s : Source) → (∀ x ∈ s.lookups, N x) → Hushes N (source s)
  | .table name label _, h => by
    rw [Source.lookups, List.forall_mem_singleton] at h
    rw [source]
    exact tableSource_hushes h label
  | .subquery select label span, h => by
    rw [Source.lookups] at h
    rw [source]
    exact (query_hushes _ select h).bind fun result =>
      (bindSubquery_hushes label _).bind fun _ => .pure _

theorem joins_hushes : (js : List Join) → (∀ x ∈ joinLookups js, N x) → Hushes N (joins js)
  | [], _ => by
    rw [joins]
    exact .pure _
  | ⟨_, _, table, none, _⟩ :: rest, h => by
    rw [joinLookups, List.forall_mem_append] at h
    rw [joins]
    exact (source_hushes table h.1).bind fun result =>
      (joins_hushes rest h.2).bind fun results => .pure _
  | ⟨_, _, table, some on, _⟩ :: rest, h => by
    rw [joinLookups, List.forall_mem_append, List.forall_mem_append] at h
    rw [joins]
    refine (source_hushes table h.1.1).bind fun result => ?_
    refine (condition_hushes (.literal _ rfl rfl) _ (term_hushes on h.1.2)).bind fun on => ?_
    exact (joins_hushes rest h.2).bind fun results => .pure _

theorem resultColumns_hushes (result : TableId) (hasSource : Bool)
    (joined : List (String × TableId)) :
    (columns : List ResultColumn) → (∀ x ∈ columnLookups columns, N x) →
      Hushes N (resultColumns result hasSource joined columns)
  | [], _ => by
    rw [resultColumns]
    exact .pure _
  | .star span :: rest, h => by
    rw [columnLookups] at h
    rw [resultColumns]
    exact (addStar_hushes _ _ _ _).bind fun _ =>
      (resultColumns_hushes result hasSource joined rest h).bind fun results => .pure _
  | .tableStar table :: rest, h => by
    rw [columnLookups, List.forall_mem_cons] at h
    rw [resultColumns]
    exact (addTableStar_hushes _ _ h.1).bind fun _ =>
      (resultColumns_hushes result hasSource joined rest h.2).bind fun results => .pure _
  | .expr value label :: rest, h => by
    rw [columnLookups, List.forall_mem_append] at h
    rw [resultColumns]
    refine (term_hushes value h.1).bind fun value => ?_
    refine (addResultColumn_hushes _ _ _).bind fun entry => ?_
    exact (resultColumns_hushes result hasSource joined rest h.2).bind fun results => .pure _

theorem orderingTerms_hushes : (items : List OrderingTerm) → (∀ x ∈ termLookups items, N x) →
    Hushes N (orderingTerms items)
  | [], _ => by
    rw [orderingTerms]
    exact .pure _
  | ⟨expr, _, _⟩ :: rest, h => by
    rw [termLookups, List.forall_mem_append] at h
    rw [orderingTerms]
    exact (term_hushes expr h.1).bind fun expr =>
      (orderingTerms_hushes rest h.2).bind fun items => .pure _

theorem sources_hushes : (clause : Option FromClause) → (∀ x ∈ sourceLookups clause, N x) →
    Hushes N (sources clause)
  | none, _ => by
    rw [sources]
    exact .pure _
  | some ⟨first, others⟩, h => by
    rw [sourceLookups, List.forall_mem_append] at h
    rw [sources]
    exact (source_hushes first h.1).bind fun result =>
      (joins_hushes others h.2).bind fun results => .pure _

theorem rowCondition_hushes : (test : Option Expr) → (∀ x ∈ optionLookups test, N x) →
    Hushes N (rowCondition test)
  | none, _ => by
    rw [rowCondition]
    exact .pure _
  | some e, h => by
    rw [optionLookups] at h
    rw [rowCondition]
    exact (condition_hushes (.literal _ rfl rfl) _ (term_hushes e h)).map

theorem groups_hushes : (clause : Option GroupBy) → (∀ x ∈ groupLookups clause, N x) →
    Hushes N (groups clause)
  | none, _ => by
    rw [groups]
    exact .pure _
  | some ⟨exprs, none, span⟩, h => by
    rw [groupLookups, List.forall_mem_append] at h
    rw [groups]
    exact (terms_hushes exprs h.1).bind fun exprs => .pure _
  | some ⟨exprs, some having, span⟩, h => by
    rw [groupLookups, List.forall_mem_append, optionLookups] at h
    rw [groups]
    refine (terms_hushes exprs h.1).bind fun exprs => ?_
    exact (condition_hushes (.literal _ rfl rfl) _ (term_hushes having h.2)).bind fun having =>
      .pure _

theorem order_hushes (aliases : List (String × ColumnId)) :
    (clause : Option OrderBy) → (∀ x ∈ orderLookups clause, N x) →
      Hushes N (order aliases clause)
  | none, _ => by
    rw [order]
    exact .pure _
  | some ⟨items, span⟩, h => by
    rw [orderLookups] at h
    rw [order]
    exact .within ((bindAliases_hushes aliases).bind fun _ =>
      (orderingTerms_hushes items h).bind fun items => .pure _) span

theorem limits_hushes : (clause : Option Limit) → (∀ x ∈ limitLookups clause, N x) →
    Hushes N (limits clause)
  | none, _ => by
    rw [limits]
    exact .pure _
  | some ⟨count, none, span⟩, h => by
    rw [limitLookups, List.forall_mem_append] at h
    rw [limits]
    exact (term_hushes count h.1).bind fun count => (requireInteger_hushes count).bind fun _ =>
      .pure _
  | some ⟨count, some offset, span⟩, h => by
    rw [limitLookups, List.forall_mem_append, optionLookups] at h
    rw [limits]
    refine (term_hushes count h.1).bind fun count => ?_
    refine (requireInteger_hushes count).bind fun _ => ?_
    exact (term_hushes offset h.2).bind fun offset => (requireInteger_hushes offset).bind fun _ =>
      .pure _

theorem query_hushes (name : String) : (s : Select) → (∀ x ∈ s.lookups, N x) →
    Hushes N (query name s)
  | ⟨distinct, columns, clause, test, groupBy, orderBy, limit, span, _⟩, h => by
    simp only [Select.lookups, List.forall_mem_append] at h
    obtain ⟨hclause, hcolumns, htest, hgroupBy, horderBy, hlimit⟩ := h
    rw [query]
    refine .within ?_ span
    refine (sources_hushes clause hclause).bind fun sources => ?_
    refine (addResult_hushes name).bind fun result => ?_
    refine (resultColumns_hushes _ _ _ columns hcolumns).bind fun entries => ?_
    refine (rowCondition_hushes test htest).bind fun test => ?_
    refine (groups_hushes groupBy hgroupBy).bind fun groupBy => ?_
    refine (order_hushes _ orderBy horderBy).bind fun orderBy => ?_
    exact (limits_hushes limit hlimit).bind fun limit => .pure _

end

/-! ### Unknown sources -/

/-- Whether a result with a property is given only where an open scope has an unknown source. -/
def Marks (r : Resolver α) (u : α → Prop) : Prop :=
  ∀ s : ResolverState, s.Clouds (r.run s).2 ∧ (u (r.run s).1 → (r.run s).2.isOpaque = true)

namespace Marks

variable {r : Resolver α} {f : α → Resolver β} {u : α → Prop} {v : β → Prop}

theorem pure {a : α} (h : ¬u a) : Marks (pure a) u :=
  fun s => ⟨.refl s, fun ha => absurd ha h⟩

theorem of_hushes (h : Hushes (fun _ => True) r) : Marks r fun _ => False :=
  fun s => ⟨(h s).1, False.elim⟩

/-- What the first resolver marks stays marked. -/
theorem bind (hr : Marks r u) (hf : ∀ a, Marks (f a) fun b => v b ∧ ¬u a) :
    Marks (r >>= f) v := by
  intro s
  obtain ⟨hclouds, hmarked⟩ := hr s
  obtain ⟨hclouds', hmarked'⟩ := hf (r.run s).1 (r.run s).2
  refine ⟨hclouds.trans hclouds', fun hv => ?_⟩
  by_cases hu : u (r.run s).1
  · exact hclouds'.isOpaque (hmarked hu)
  · exact hmarked' ⟨hv, hu⟩

end Marks

theorem isOpaque_modifyFrame (s : ResolverState) :
    (s.modifyFrame fun f => { f with opaqueSource := true }).isOpaque = true := by
  obtain ⟨frame, rest, -, hmarks⟩ := s.marks_modifyFrame fun f => { f with opaqueSource := true }
  exact (isOpaque_iff _).mpr ⟨0, by rw [hmarks]; rfl⟩

theorem tableSource_marks (name : Ident) (label : Option Ident) :
    Marks (tableSource name label) fun result => result.1.table? = none := by
  refine (Marks.of_hushes (catalogTable?_hushes trivial)).bind fun table? => ?_
  split
  · exact (Marks.of_hushes (bindTable_hushes _ _)).bind fun _ => .pure (by simp [Source.table?])
  · refine fun s => ⟨clouds_modifyFrame s fun _ _ => rfl, fun _ => isOpaque_modifyFrame s⟩

theorem query_marks (name : String) (select : Select) :
    Marks (query name select) fun result => result.1.result = none := by
  refine fun s => ⟨(query_hushes name select (N := fun _ => True) (fun _ _ => trivial) s).1, ?_⟩
  intro hnone
  rw [query_result name select s] at hnone
  cases hnone

theorem source_marks (src : Source) :
    Marks (source src) fun result => result.1.table? = none := by
  cases src with
  | table name label binding =>
    rw [source]
    exact tableSource_marks name label
  | subquery select label span =>
    rw [source]
    refine (query_marks _ select).bind fun result => ?_
    refine (Marks.of_hushes (bindSubquery_hushes _ _)).bind fun _ => .pure ?_
    rintro ⟨⟨hnone, hresult⟩, -⟩
    exact hresult hnone

theorem joins_marks (js : List Join) : Marks (joins js) fun result =>
    ∃ join ∈ result.1, join.source.table? = none := by
  induction js with
  | nil =>
    rw [joins]
    exact .pure (by simp)
  | cons join rest ih =>
    obtain ⟨natural, op, table, on, span⟩ := join
    cases on with
    | none =>
      rw [joins]
      refine (source_marks table).bind fun result => ih.bind fun results => .pure ?_
      rintro ⟨⟨⟨join, hmem, hnone⟩, hfirst⟩, hrest⟩
      rcases List.mem_cons.mp hmem with rfl | hmem
      · exact hfirst hnone
      · exact hrest ⟨join, hmem, hnone⟩
    | some on =>
      have hon : Hushes (fun _ => True) (condition "ON" on.span (term on)) :=
        condition_hushes (.literal _ rfl rfl) _ (term_hushes on fun _ _ => trivial)
      rw [joins]
      refine (source_marks table).bind fun result => ?_
      refine (Marks.of_hushes hon).bind fun on => ih.bind fun results => .pure ?_
      rintro ⟨⟨⟨⟨join, hmem, hnone⟩, hfirst⟩, -⟩, hrest⟩
      rcases List.mem_cons.mp hmem with rfl | hmem
      · exact hfirst hnone
      · exact hrest ⟨join, hmem, hnone⟩

/-- A table among the sources that is not found marks the scope of the query. -/
theorem sources_marks (clause : Option FromClause) : Marks (sources clause) fun result =>
    ∃ clause' ∈ result.1, ∃ src ∈ clause'.sources, src.table? = none := by
  cases clause with
  | none =>
    rw [sources]
    exact .pure (by simp)
  | some clause =>
    obtain ⟨first, others⟩ := clause
    rw [sources]
    refine (source_marks first).bind fun result => (joins_marks others).bind fun results => .pure ?_
    rintro ⟨⟨⟨clause', hclause, src, hsrc, hnone⟩, hfirst⟩, hothers⟩
    obtain rfl := Option.mem_some_iff.mp hclause
    rcases List.mem_cons.mp hsrc with rfl | hsrc
    · exact hfirst hnone
    · obtain ⟨join, hjoin, rfl⟩ := List.mem_map.mp hsrc
      exact hothers ⟨join, hjoin, hnone⟩

theorem columnsOfQuery_hushes (name : String) (select : Select)
    (found : Option FromClause × List (String × TableId)) (h : ∀ x ∈ select.laterLookups, N x) :
    Hushes N (columnsOfQuery name select found) := by
  simp only [Select.laterLookups, List.forall_mem_append] at h
  obtain ⟨hcolumns, htest, hgroupBy, horderBy, hlimit⟩ := h
  refine (addResult_hushes name).bind fun result => ?_
  refine (resultColumns_hushes _ _ _ _ hcolumns).bind fun entries => ?_
  refine (rowCondition_hushes _ htest).bind fun test => ?_
  refine (groups_hushes _ hgroupBy).bind fun groupBy => ?_
  refine (order_hushes _ _ horderBy).bind fun orderBy => ?_
  exact (limits_hushes _ hlimit).bind fun limit => .pure _

/-- If a table among the sources of a query is not found, then behind the sources an unknown
name is complained about only where it is no name in an open scope: a source of a query
further inside that the catalog does not have, or a table before a star. -/
theorem query_silenced (s : ResolverState) (name : String) (select : Select)
    {clause : FromClause} {src : Source}
    (hclause : ((query name select).run s).1.1.source = some clause)
    (hsrc : src ∈ clause.sources) (hunknown : src.table? = none) :
    ∃ later, ((query name select).run s).2.diagnostics =
        ((sources select.source).run (s.enter select.span)).2.diagnostics ++ later ∧
      ∀ d ∈ later, IsUnknownName d.message →
        ∃ table fix, d = { Diagnostic.semantic s!"unknown table {table.name}"
            (s.index.range table.span) with quickFix := fix } ∧
          (.source table ∈ select.laterLookups ∧ s.catalog.findTables table.name = [] ∨
            .star table ∈ select.laterLookups) := by
  obtain ⟨hclouds, hmarked⟩ := sources_marks select.source (s.enter select.span)
  rw [query_eq, run_within, run_bind] at hclause ⊢
  generalize (sources select.source).run (s.enter select.span) = found at hclouds hmarked hclause ⊢
  have hsource : _ = found.1.1 := columnsOfQuery_source name select found.1 found.2
  have hopaque : found.2.isOpaque = true :=
    hmarked ⟨clause, hsource ▸ hclause, src, hsrc, hunknown⟩
  have hhushes := columnsOfQuery_hushes (N := (· ∈ select.laterLookups)) name select found.1
    fun _ h => h
  obtain ⟨later, hlater, hmurmurs⟩ := (hhushes found.2).2 hopaque
  rw [leave_diagnostics]
  refine ⟨later, hlater, fun d hd hname => ?_⟩
  have hmurmur := (hmurmurs d hd).congr hclouds.named.symm
  rw [hclouds.index] at hmurmur
  cases hmurmur with
  | source fix h hnone => exact ⟨_, fix, rfl, .inl ⟨h, hnone⟩⟩
  | star fix h => exact ⟨_, fix, rfl, .inr h⟩
  | other h => exact absurd hname h

/-- `SELECT x FROM missing WHERE y` over no tables. -/
theorem query_silenced_missing :
    let name (text : String) (start stop : Nat) : Expr :=
      .name ⟨⟨start, stop⟩, none, none⟩ ⟨text, false, ⟨start, stop⟩⟩
    let src : Source := .table ⟨"missing", false, ⟨14, 21⟩⟩ none none
    let select : Select := ⟨false, [.expr (name "x" 7 8) none], some ⟨src, []⟩,
      some (name "y" 28 29), none, none, none, ⟨0, 29⟩, none⟩
    let s := ResolverState.start ⟨[], 29⟩ .empty
    let after := (query "result" select).run s
    (after.1.1.source = some ⟨src, []⟩ ∧ src ∈ [src] ∧ src.table? = none) ∧
      ∃ later, after.2.diagnostics =
          ((sources select.source).run (s.enter select.span)).2.diagnostics ++ later ∧
        ∀ d ∈ later, ¬IsUnknownName d.message := by
  intro name src select s after
  have hclause : after.1.1.source = some ⟨src, []⟩ := rfl
  have hsrc : src ∈ [src] := List.mem_cons_self
  obtain ⟨later, hlater, hsaid⟩ := query_silenced s "result" select hclause hsrc rfl
  refine ⟨⟨hclause, hsrc, rfl⟩, later, hlater, fun d hd hunknown => ?_⟩
  have hnone : select.laterLookups = [] := rfl
  obtain ⟨table, fix, -, hlookup⟩ := hsaid d hd hunknown
  simp [hnone] at hlookup

end Resolver
end SqlAnalysis

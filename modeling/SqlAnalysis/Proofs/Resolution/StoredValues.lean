import SqlAnalysis.Proofs.Resolution.BoundStatements
import SqlAnalysis.Proofs.Resolution.StatementEdits

/-!
# Values that accepted statements store

In a batch that is accepted every value of an insertion or an update goes into a
column that can take it, as far as the types of the two are known. The types of
columns never change, so what was checked when a statement was resolved is true of
the final catalog.
-/
namespace SqlAnalysis

/-! ### Well-typed statements -/

/-- As far as its type is known, the column can take the value. A text for a date or a
moment has to be the text of one, any other value of a known type has to be castable. -/
def Expr.Storable (c : Catalog) (value : Expr) (column : ColumnId) : Prop :=
  ∀ type, (c.column column).type = some type →
    match type.kind, value.literal?.bind Literal.text? with
    | .date, some text => (Date.ofText? text).isSome = true
    | .datetime, some text => (Moment.ofText? text).isSome = true
    | _, _ => ∀ valueType, value.type = some valueType → valueType.canCastTo type = true

/-- Each row has one value for each of some distinct columns of the table. -/
structure Insert.WellTyped (before c : Catalog) (table : TableId) (s : Insert) : Prop where
  binding : s.binding = some table
  distinct : s.targets.Nodup
  columns : ∀ id ∈ s.targets, id ∈ (before.table table).columns
  lengths : ∀ row ∈ s.rows, row.values.length = s.targets.length
  values : ∀ row ∈ s.rows, ∀ entry ∈ s.targets.zip row.values, entry.2.Storable c entry.1

/-- Each assignment is to a column of the table. -/
structure Update.WellTyped (c : Catalog) (table : TableId) (s : Update) : Prop where
  binding : s.binding = some table
  values : ∀ a ∈ s.assignments, ∃ column, a.binding = some column ∧
    (c.column column).table = table ∧ a.value.Storable c column

/-- The statement stores values only where they can go. Its table is taken as it was
before the statement. -/
def StatementBody.WellTyped (before c : Catalog) : StatementBody → Prop
  | .insert s => ∃ table, s.WellTyped before c table
  | .update s => ∃ table, s.WellTyped c table
  | _ => True

def Statement.WellTyped (before c : Catalog) (s : Statement) : Prop :=
  s.body.WellTyped before c

namespace Expr

variable {c c' : Catalog} {value : Expr} {column : ColumnId} {type : SqlType}

theorem Storable.of_preserves (h : value.Storable c column) (hc : c.Preserves c')
    (hcolumn : c.HasColumn column) : value.Storable c' column := by
  unfold Storable
  rw [hc.type_eq hcolumn]
  exact h

theorem storable_of_text {form text : String} (htype : (c.column column).type = some type)
    (hform : type.kind.textForm? = some form)
    (htext : value.literal?.bind Literal.text? = some text)
    (hadmits : type.kind.admitsText text = true) : value.Storable c column := by
  intro other hother
  obtain rfl := Option.some.inj (htype.symm.trans hother)
  rw [htext]
  cases hkind : type.kind with
  | date => simpa [hkind, TypeKind.admitsText] using hadmits
  | datetime => simpa [hkind, TypeKind.admitsText] using hadmits
  | _ => simp [hkind, TypeKind.textForm?] at hform

theorem storable_of_type (htype : (c.column column).type = some type)
    (hordinary : ∀ form text, type.kind.textForm? = some form →
      value.literal?.bind Literal.text? = some text → False)
    (hcast : ∀ valueType, value.type = some valueType → valueType.canCastTo type = true) :
    value.Storable c column := by
  intro other hother
  obtain rfl := Option.some.inj (htype.symm.trans hother)
  split
  · next hkind htext => exact (hordinary _ _ (by rw [hkind]; rfl) htext).elim
  · next hkind htext => exact (hordinary _ _ (by rw [hkind]; rfl) htext).elim
  · exact hcast

end Expr

namespace Resolver

open Catalog ResolverState

variable {α β : Type} {own : Rights} {P P' : Catalog → Prop} {Q Q' : Catalog → α → Prop}
  {R : Catalog → β → Prop}

/-! ### Resolvers that check -/

/-- A run complains of an error, or its result is good then and after further edits. -/
def ChecksAt (own : Rights) (s : ResolverState) (r : Resolver α)
    (Q : Catalog → α → Prop) : Prop :=
  (r.run s).2.Failed ∨ EvolvesAt own s r Q

theorem ChecksAt.bind {s : ResolverState} {r : Resolver α} {f : α → Resolver β}
    (hopen : s.frames ≠ []) (horderly : Orderly r) (hf : ∀ a, Orderly (f a))
    (hr : ChecksAt own s r Q)
    (hnext : EvolvesAt own s r Q → ChecksAt own (r.run s).2 (f (r.run s).1) R) :
    ChecksAt own s (r >>= f) R := by
  rcases hr with hfailed | hgood
  · exact .inl ((hf _).failed (horderly s hopen).keeps.isOpen hfailed)
  · rcases hnext hgood with hfailed | hnext
    · exact .inl hfailed
    · exact .inr (hgood.bind hnext)

/-- Every run inside a scope does where something holds of the catalog and of all that
edits make of it. -/
structure Checks (own : Rights) (P : Catalog → Prop) (r : Resolver α)
    (Q : Catalog → α → Prop) : Prop where
  orderly : Orderly r
  run : ∀ s, s.frames ≠ [] → s.catalog.Editable own → (∀ c, Edits own s.catalog c → P c) →
    ChecksAt own s r Q

namespace Checks

variable {r : Resolver α} {f : α → Resolver β}

theorem of_evolves (horderly : Orderly r) (h : Evolves own P r Q) : Checks own P r Q :=
  ⟨horderly, fun s _ hs hP => .inr (h s hs hP)⟩

theorem pure {a : α} (h : ∀ c, P c → Q c a) : Checks own P (pure a) Q :=
  of_evolves (.pure a) (.pure h)

theorem bind (hr : Checks own P r Q) (hf : ∀ a, Checks own (fun c => P c ∧ Q c a) (f a) R) :
    Checks own P (r >>= f) R := by
  refine ⟨hr.orderly.bind fun a => (hf a).orderly, fun s hopen hs hP => ?_⟩
  apply ChecksAt.bind hopen hr.orderly (fun a => (hf a).orderly) (hr.run s hopen hs hP)
  intro hgood
  apply (hf _).run _ (hr.orderly s hopen).keeps.isOpen (hs.of_edits hgood.edits)
  intro c hc
  exact ⟨hP c (hgood.edits.trans hc), hgood.good c hc⟩

theorem weaken (hr : Checks own P r Q) (hP : ∀ c, P' c → P c) (hQ : ∀ c a, Q c a → Q' c a) :
    Checks own P' r Q' := by
  refine ⟨hr.orderly, fun s hopen hs hP' => ?_⟩
  rcases hr.run s hopen hs fun c hc => hP c (hP' c hc) with hfailed | hgood
  · exact .inl hfailed
  · exact .inr ⟨hgood.edits, fun c hc => hQ c _ (hgood.good c hc)⟩

theorem within (hr : Checks own P r Q) (span : Span) : Checks own P (within span r) Q := by
  refine ⟨hr.orderly.within span, fun s _ hs hP => ?_⟩
  rcases hr.run (s.enter span) (List.cons_ne_nil _ _) hs hP with ⟨d, hd, herror⟩ | hgood
  · refine .inl ⟨d, ?_, herror⟩
    rwa [run_within, leave_diagnostics]
  · refine .inr ⟨?_, ?_⟩
    · rw [run_within, leave_catalog]
      exact hgood.edits
    · rw [run_within, leave_catalog]
      exact hgood.good

theorem mapM {f : α → Resolver β} {S : Catalog → Prop} (hf : ∀ (P : Catalog → Prop) a,
      (∀ c, P c → S c) → Checks own P (f a) R) (as : List α) :
    ∀ P : Catalog → Prop, (∀ c, P c → S c) →
      Checks own P (as.mapM f) fun c bs => ∀ b ∈ bs, R c b := by
  induction as with
  | nil => exact fun P _ => pure fun _ _ _ hb => absurd hb List.not_mem_nil
  | cons a as ih =>
    intro P hP
    rw [List.mapM_cons]
    apply (hf P a hP).bind
    intro b
    apply (ih _ fun c h => hP c h.1).bind
    intro bs
    exact pure fun c h => List.forall_mem_cons.mpr ⟨h.1.2, h.2⟩

end Checks

/-! ### Single values -/

theorem tableColumn?_checks (table : TableId) (name : Ident) :
    Checks own P (tableColumn? table name) fun c column =>
      ∃ id, column = some id ∧ IsColumnOf table c id := by
  refine ⟨tableColumn?_orderly table name, fun s _ hs hP => ?_⟩
  have hevolves := tableColumn?_evolves table name s hs hP
  rcases tableColumn?_run table name s with ⟨id, -, hrun⟩ | ⟨-, hfailed⟩
  · refine .inr ⟨hevolves.edits, fun c hc => ⟨id, ?_, ?_⟩⟩
    · rw [hrun]
    · exact hevolves.good c hc id (by rw [hrun]; rfl)
  · exact .inl hfailed

theorem requireStorable_run (value : Expr) (column : ColumnId) (s : ResolverState) :
    ((requireStorable value column).run s).2.Failed ∨ value.Storable s.catalog column := by
  have hfailed : ∀ message span fix, ((errorWithFix message span fix).run s).2.Failed :=
    fun _ _ _ => ⟨_, List.mem_append_right _ List.mem_cons_self, rfl⟩
  unfold requireStorable
  rw [run_catalog_bind]
  dsimp only
  split
  · next hnone =>
    refine .inr fun type htype => ?_
    cases hnone.symm.trans htype
  · next type htype =>
    split
    · next hform htext =>
      split
      · exact .inl (hfailed _ _ _)
      · next hadmits => exact .inr (Expr.storable_of_text htype hform htext (by simpa using hadmits))
    · next hordinary =>
      split
      · next valueType hvalue =>
        split
        · exact .inl (hfailed _ _ _)
        · next hcast =>
          refine .inr (Expr.storable_of_type htype hordinary fun other hother => ?_)
          obtain rfl := Option.some.inj (hvalue.symm.trans hother)
          simpa using hcast
      · next hunknown =>
        refine .inr (Expr.storable_of_type htype hordinary fun other hother => ?_)
        exact (hunknown other hother).elim

theorem requireStorable_checks {value : Expr} {column : ColumnId}
    (hcolumn : ∀ c, P c → c.HasColumn column) :
    Checks own P (requireStorable value column) fun c _ => value.Storable c column := by
  refine ⟨requireStorable_orderly value column, fun s _ _ hP => ?_⟩
  rcases requireStorable_run value column s with hfailed | hstorable
  · exact .inl hfailed
  · have hcatalog := requireStorable_quiet value column s
    refine .inr ⟨by rw [hcatalog], fun c hc => ?_⟩
    rw [hcatalog] at hc
    exact hstorable.of_preserves hc.preserves (hcolumn _ (hP _ .refl))

/-! ### Rows -/

theorem storedTerms_checks (es : List Expr) :
    ∀ (P : Catalog → Prop) columns, (∀ c, P c → ∀ id ∈ columns, c.HasColumn id) →
      Checks own P (storedTerms columns es) fun c values => values.length = es.length ∧
        ∀ entry ∈ columns.zip values, entry.2.Storable c entry.1 := by
  induction es with
  | nil =>
    intro P columns _
    cases columns <;> exact .pure fun _ _ => ⟨rfl, by simp⟩
  | cons e es ih =>
    intro P columns hcolumns
    cases columns with
    | nil =>
      rw [storedTerms]
      apply (Checks.of_evolves (term_orderly e) (term_evolves e)).bind
      intro value
      apply (ih _ [] fun _ _ _ hid => absurd hid List.not_mem_nil).bind
      intro values
      exact .pure fun c h => ⟨congrArg Nat.succ h.2.1, by simp⟩
    | cons column columns =>
      rw [storedTerms]
      apply (Checks.of_evolves (term_orderly e) (term_evolves e)).bind
      intro value
      apply (requireStorable_checks fun c h => hcolumns c h.1 column List.mem_cons_self).bind
      intro _
      apply (ih _ columns fun c h id hid => hcolumns c h.1.1 id (List.mem_cons_of_mem _ hid)).bind
      intro values
      refine .pure fun c h => ⟨congrArg Nat.succ h.2.1, ?_⟩
      rw [List.zip_cons_cons]
      exact List.forall_mem_cons.mpr ⟨h.1.2, h.2.2⟩

theorem requireLength_checks (targets : List ColumnId) (row : ValueRow) :
    Checks own P (requireLength targets row) fun _ _ => row.values.length = targets.length := by
  refine ⟨requireLength_orderly targets row, fun s _ _ _ => ?_⟩
  by_cases hlength : row.values.length = targets.length
  · have hrun : requireLength targets row = pure () := by simp [requireLength, hlength]
    exact .inr ⟨by rw [hrun]; exact .refl, fun _ _ => hlength⟩
  · have hrun : requireLength targets row =
        error s!"expected {targets.length} values, found {row.values.length}" row.span := by
      simp [requireLength, hlength]
    exact .inl ⟨_, by rw [hrun]; exact List.mem_append_right _ List.mem_cons_self, rfl⟩

theorem valueRow_checks {targets : List ColumnId} (htargets : ∀ c, P c → ∀ id ∈ targets, c.HasColumn id)
    (row : ValueRow) :
    Checks own P (valueRow targets true row) fun c row => row.values.length = targets.length ∧
      ∀ entry ∈ targets.zip row.values, entry.2.Storable c entry.1 := by
  unfold valueRow
  rw [if_pos rfl]
  apply (requireLength_checks targets row).bind
  intro _
  apply (storedTerms_checks row.values _ targets fun c h => htargets c h.1).bind
  intro values
  exact .pure fun c h => ⟨h.2.1.trans h.1.2, h.2.2⟩

theorem insertRows_checks {targets : List ColumnId}
    (htargets : ∀ c, P c → ∀ id ∈ targets, c.HasColumn id) (rows : List ValueRow) :
    Checks own P (insertRows targets true rows) fun c rows => ∀ row ∈ rows,
      row.values.length = targets.length ∧
        ∀ entry ∈ targets.zip row.values, entry.2.Storable c entry.1 := by
  cases rows with
  | nil => exact .pure fun _ _ _ hrow => absurd hrow List.not_mem_nil
  | cons first rest =>
    apply Checks.within
    exact Checks.mapM (fun P row hP => valueRow_checks hP row) (first :: rest) P htargets

/-! ### Targets -/

/-- Distinct columns of a table whose names were not listed before. -/
structure AreTargets (c : Catalog) (table : TableId) (seen : List String) (ids : List ColumnId) :
    Prop where
  distinct : ids.Nodup
  columns : ∀ id ∈ ids, id ∈ (c.table table).columns
  unlisted : ∀ id ∈ ids, Text.foldCase (c.column id).name ∉ seen

theorem AreTargets.cons {c : Catalog} {table : TableId} {seen : List String} {name : String}
    {id : ColumnId} {ids : List ColumnId} (hnew : Text.foldCase name ∉ seen)
    (hid : id ∈ c.findColumns table name) (h : AreTargets c table (Text.foldCase name :: seen) ids) :
    AreTargets c table seen (id :: ids) := by
  obtain ⟨hmem, hsame⟩ := List.mem_filter.mp hid
  rw [Text.sameName_iff] at hsame
  constructor
  · refine List.nodup_cons.mpr ⟨fun hagain => ?_, h.distinct⟩
    exact h.unlisted id hagain (hsame ▸ List.mem_cons_self)
  · exact List.forall_mem_cons.mpr ⟨hmem, h.columns⟩
  · refine List.forall_mem_cons.mpr ⟨hsame ▸ hnew, fun other hother => ?_⟩
    exact fun hseen => h.unlisted other hother (List.mem_cons_of_mem _ hseen)

theorem requireUnlisted_checks (seen : List String) (ident : Ident) (s : ResolverState) :
    ChecksAt own s (requireUnlisted seen ident) fun _ _ => Text.foldCase ident.name ∉ seen := by
  by_cases hseen : Text.foldCase ident.name ∈ seen
  · have hrun : requireUnlisted seen ident =
        error s!"column {ident.name} listed twice" ident.span := by
      simp [requireUnlisted, hseen]
    exact .inl ⟨_, by rw [hrun]; exact List.mem_append_right _ List.mem_cons_self, rfl⟩
  · exact .inr ⟨by rw [requireUnlisted_quiet], fun _ _ => hseen⟩

/-- A name that was listed before is an error, so that the columns are distinct. -/
theorem listedColumns_checks (table : TableId) (idents : List Ident) :
    ∀ (seen : List String) (s : ResolverState), s.frames ≠ [] →
      ChecksAt own s (listedColumns table seen idents) fun _ result =>
        result.2 = true ∧ AreTargets s.catalog table seen result.1 := by
  induction idents with
  | nil =>
    intro seen s _
    refine .inr ⟨.refl, fun _ _ => ⟨rfl, List.nodup_nil, ?_, ?_⟩⟩
    · exact fun _ hid => absurd hid List.not_mem_nil
    · exact fun _ hid => absurd hid List.not_mem_nil
  | cons ident idents ih =>
    intro seen s hopen
    have hunlisted := requireUnlisted_orderly seen ident
    have hlookup := tableColumn?_orderly table ident
    have hrest := listedColumns_orderly table idents (Text.foldCase ident.name :: seen)
    rw [listedColumns]
    apply ChecksAt.bind hopen hunlisted (fun _ => hlookup.bind fun _ => hrest.bind fun _ => .pure _)
      (requireUnlisted_checks seen ident s)
    intro hnew
    have hunseen := hnew.good _ .refl
    have hopen' := (hunlisted s hopen).keeps.isOpen
    have hcatalog : ((requireUnlisted seen ident).run s).2.catalog = s.catalog :=
      requireUnlisted_quiet seen ident s
    generalize ((requireUnlisted seen ident).run s).2 = s' at hopen' hcatalog
    rw [← hcatalog]
    rcases tableColumn?_run table ident s' with ⟨id, hfound, hrun⟩ | ⟨-, hfailed⟩
    · have hfind : ChecksAt own s' (tableColumn? table ident) fun _ _ => True :=
        .inr ⟨by rw [hrun], fun _ _ => trivial⟩
      apply ChecksAt.bind hopen' hlookup (fun _ => hrest.bind fun _ => .pure _) hfind
      intro _
      rw [hrun]
      apply ChecksAt.bind hopen' hrest (fun _ => .pure _) (ih _ s' hopen')
      intro hgood
      obtain ⟨hcomplete, htargets⟩ := hgood.good _ .refl
      refine .inr ⟨.refl, fun _ _ => ⟨hcomplete, ?_⟩⟩
      exact htargets.cons hunseen (by simp [hfound])
    · exact .inl ((hrest.bind fun _ => .pure _).failed (hlookup s' hopen').keeps.isOpen hfailed)

theorem insertTargets_checks (table : TableId) (columns : List Ident) {s : ResolverState}
    (hopen : s.frames ≠ []) (hs : s.catalog.Indexed) :
    ChecksAt own s (insertTargets table columns) fun _ result =>
      result.2 = true ∧ AreTargets s.catalog table [] result.1 := by
  unfold insertTargets
  split
  · refine .inr (EvolvesAt.view ⟨.refl, fun _ _ => ⟨rfl, ?_, fun _ hid => hid, by simp⟩⟩)
    exact hs.table_columns_nodup table
  · exact listedColumns_checks table columns [] s hopen

/-! ### Statements -/

theorem catalogTable?_checks (name : Ident) :
    Checks own P (catalogTable? name) fun _ table => ∃ id, table = some id := by
  refine ⟨catalogTable?_orderly name, fun s _ _ _ => ?_⟩
  rcases catalogTable?_run name s with ⟨id, -, hrun⟩ | ⟨-, hfailed⟩
  · exact .inr ⟨by rw [hrun], fun _ _ => ⟨id, by rw [hrun]⟩⟩
  · exact .inl hfailed

theorem target?_checks (name : Ident) :
    Checks own P (target? name) fun _ table => ∃ id, table = some id := by
  refine (catalogTable?_checks name).bind fun table? => ?_
  split
  · next table =>
    apply (Checks.of_evolves (.bindTable _ _) (.quiet (.bindTable _ _))).bind
    intro _
    exact .pure fun _ _ => ⟨table, rfl⟩
  · exact .pure fun _ h => h.2

/-- The table does not change while the targets are found. -/
theorem insert_checks (i : Insert) {s : ResolverState} (hopen : s.frames ≠ [])
    (hs : s.catalog.Editable own) :
    ChecksAt own s (insert i) fun c i => ∃ table, i.WellTyped s.catalog c table := by
  have htarget := target?_orderly i.table
  refine ChecksAt.bind hopen htarget (fun table? => ?_)
    ((target?_checks (P := fun _ => True) i.table).run s hopen hs fun _ _ => trivial) fun hgood => ?_
  · split
    · exact .pure _
    · exact (insertTargets_orderly _ _).bind fun _ => (insertRows_orderly _ _ _).bind fun _ => .pure _
  · obtain ⟨table, htable⟩ := hgood.good _ .refl
    have hopen' := (htarget s hopen).keeps.isOpen
    have hcatalog : ((target? i.table).run s).2.catalog = s.catalog := target?_quiet i.table s
    rw [htable]
    generalize ((target? i.table).run s).2 = s' at hopen' hcatalog
    rw [← hcatalog] at hs ⊢
    have hcolumns := insertTargets_orderly table i.columns
    apply ChecksAt.bind hopen' hcolumns (fun _ => (insertRows_orderly _ _ _).bind fun _ => .pure _)
      (insertTargets_checks table i.columns hopen' hs.indexed)
    intro hgood'
    obtain ⟨hcomplete, htargets⟩ := hgood'.good _ .refl
    have hopen'' := (hcolumns s' hopen').keeps.isOpen
    have hcatalog' : ((insertTargets table i.columns).run s').2.catalog = s'.catalog :=
      insertTargets_quiet table i.columns s'
    generalize ((insertTargets table i.columns).run s').1 = targets at hcomplete htargets
    generalize ((insertTargets table i.columns).run s').2 = s'' at hopen'' hcatalog'
    obtain ⟨ids, complete⟩ := targets
    obtain rfl : complete = true := hcomplete
    have hhas : ∀ id ∈ ids, s'.catalog.HasColumn id := fun id hid =>
      (hs.indexed.owner_of_mem (htargets.columns id hid)).1
    rw [← hcatalog'] at hs hhas
    rcases (insertRows_checks (P := fun c => ∀ id ∈ ids, c.HasColumn id) (fun _ h => h) i.rows).run
        s'' hopen'' hs fun c hc id hid => hc.preserves.hasColumn (hhas id hid) with hfailed | hrows
    · exact .inl hfailed
    · refine .inr ⟨hrows.edits, fun c hc => ⟨table, rfl, htargets.distinct, htargets.columns, ?_, ?_⟩⟩
      · exact fun row hrow => (hrows.good c hc row hrow).1
      · exact fun row hrow => (hrows.good c hc row hrow).2

theorem assignment_checks (table : TableId) (a : Assignment) :
    Checks own P (assignment table a) fun c a => ∃ column, a.binding = some column ∧
      (c.column column).table = table ∧ a.value.Storable c column := by
  apply (tableColumn?_checks table a.column).bind
  intro column
  apply (Checks.of_evolves (term_orderly a.value) (term_evolves a.value)).bind
  intro value
  split
  · next id =>
    have hcolumn : ∀ c : Catalog, (∃ other, some id = some other ∧ IsColumnOf table c other) →
        IsColumnOf table c id := by
      rintro c ⟨other, hother, hof⟩
      exact Option.some.inj hother ▸ hof
    apply (requireStorable_checks fun c h => (hcolumn c h.1.2).hasColumn).bind
    intro _
    exact .pure fun c h => ⟨id, rfl, (hcolumn c h.1.1.2).owner, h.2⟩
  · next hnone =>
    refine .pure fun c h => ?_
    obtain ⟨⟨-, id, hid, -⟩, -⟩ := h
    exact (hnone id hid).elim

theorem update_checks (u : Update) :
    Checks own P (update u) fun c u => ∃ table, u.WellTyped c table := by
  refine (target?_checks u.table).bind fun table? => ?_
  split
  · refine .pure fun _ h => ?_
    obtain ⟨-, table, hnone⟩ := h
    cases hnone
  · next table =>
    apply (Checks.mapM (S := fun _ => True) (fun _ a _ => assignment_checks table a)
      u.assignments _ fun _ _ => trivial).bind
    intro assignments
    apply (Checks.of_evolves (rowCondition_orderly _) (rowCondition_evolves u.condition)).bind
    intro condition
    exact .pure fun c h => ⟨table, rfl, h.1.2⟩

theorem statementBody_checks (body : StatementBody) {s : ResolverState} (hopen : s.frames ≠ [])
    (hs : s.catalog.Editable own) (hown : MayEdit own s.catalog body) :
    ChecksAt own s (statementBody body) fun c resolved => resolved.WellTyped s.catalog c := by
  have hevolves := statementBody_evolvesAt body hs hown
  cases body with
  | insert b =>
    rcases insert_checks b hopen hs with hfailed | hgood
    · exact .inl hfailed
    · exact .inr ⟨hgood.edits, hgood.good⟩
  | update b =>
    rcases (update_checks (P := fun _ => True) b).run s hopen hs fun _ _ => trivial with
      hfailed | hgood
    · exact .inl hfailed
    · exact .inr ⟨hgood.edits, hgood.good⟩
  | _ => exact .inr ⟨hevolves.edits, fun _ _ => trivial⟩

theorem statement_checks (statement : Statement) {s : ResolverState} (hs : s.catalog.Editable own)
    (hown : MayEdit own s.catalog statement.body) :
    ChecksAt own s (Resolver.statement statement) fun c resolved =>
      resolved.WellTyped s.catalog c := by
  rcases statementBody_checks (s := s.enter statement.span) statement.body (List.cons_ne_nil _ _)
      hs hown with ⟨d, hd, herror⟩ | hgood
  · refine .inl ⟨d, ?_, herror⟩
    unfold Resolver.statement
    rwa [run_within, leave_diagnostics]
  · refine .inr ⟨statement_edits statement hs hown, fun c hc => hgood.good c ?_⟩
    unfold Resolver.statement at hc
    rwa [run_within, leave_catalog] at hc

theorem statements_checks (statements : List Statement) :
    ∀ {s : ResolverState}, s.frames = [] → s.catalog.Indexed →
      ChecksAt .all s (statements.mapM Resolver.statement) fun c resolved =>
        ∀ (i : Nat) (result : Statement), resolved[i]? = some result →
          result.WellTyped (catalogBefore statements s i) c := by
  induction statements with
  | nil =>
    refine fun _ _ => .inr ⟨.refl, fun _ _ i result hresult => ?_⟩
    cases hresult
  | cons first rest ih =>
    intro s hframes hs
    obtain ⟨hsettled, -⟩ := statement_settles first hframes
    have hrun := run_statements_cons first rest s
    rcases statement_checks first ⟨hs, fun _ _ => trivial⟩ (mayEdit_all s.catalog first.body) with
      hfailed | hfirst
    · refine .inl ?_
      rw [hrun]
      exact statements_failed rest hsettled.frames hfailed
    · rcases ih hsettled.frames (hfirst.edits.indexed hs) with hfailed | hrest
      · exact .inl (by rwa [hrun])
      · refine .inr ⟨?_, ?_⟩
        · rw [hrun]
          exact hfirst.edits.trans hrest.edits
        · rw [hrun]
          intro c hc i result hresult
          cases i with
          | zero =>
            obtain rfl := Option.some.inj hresult
            exact hfirst.good c (hrest.edits.trans hc)
          | succ i =>
            have hgood := hrest.good c hc i result hresult
            unfold catalogBefore at hgood ⊢
            rw [List.take_succ_cons, List.mapM_cons]
            exact hgood

end Resolver

namespace Resolution

/-- In a batch that is accepted, insertions and updates store values only in columns
that can take them. -/
theorem ofStatements_wellTyped (descriptors : List TableDescriptor) (index : LineIndex)
    (statements : List Statement) (window : Nat)
    (haccepted : ∀ d ∈ ((ofStatements index (.ofDescriptors descriptors) statements).sink
      window).items, d.isError = false) :
    ∀ (i : Nat) (resolved : Statement),
      (ofStatements index (.ofDescriptors descriptors) statements).statements[i]? = some resolved →
        resolved.WellTyped
          (ofStatements index (.ofDescriptors descriptors) (statements.take i)).catalog
          (ofStatements index (.ofDescriptors descriptors) statements).catalog := by
  have hschema := Catalog.Indexed.ofDescriptors descriptors
  rcases Resolver.statements_checks statements (s := .start index _) rfl hschema with
    ⟨d, hd, herror⟩ | hgood
  · have hany : (ofStatements index (.ofDescriptors descriptors) statements).raised.any
        Diagnostic.isError = true := List.any_eq_true.mpr ⟨d, hd, herror⟩
    rw [← Sink.hasErrors_ofList window] at hany
    obtain ⟨shown, hshown, hshownError⟩ := List.any_eq_true.mp hany
    have hno := haccepted shown hshown
    rw [hshownError] at hno
    cases hno
  · exact hgood.good _ .refl

/-- `INSERT INTO t (d, a) VALUES ('2024-02-29', 1)`, where `d` is a date. -/
theorem ofStatements_wellTyped_insert :
    let descriptors : List TableDescriptor :=
      [⟨"t", none, [⟨"a", "integer", false, none, false⟩, ⟨"d", "date", false, none, false⟩], [],
        none⟩]
    let values : List Expr := [.constant ⟨⟨27, 39⟩, none, none⟩ (.string "2024-02-29"),
      .constant ⟨⟨41, 42⟩, none, none⟩ (.integer 1)]
    let insert : Statement := ⟨.insert ⟨⟨"t", false, ⟨12, 13⟩⟩, none,
      [⟨"d", false, ⟨15, 16⟩⟩, ⟨"a", false, ⟨18, 19⟩⟩], [⟨values, ⟨26, 43⟩⟩], []⟩, ⟨0, 43⟩, none⟩
    let r := ofStatements ⟨[], 43⟩ (.ofDescriptors descriptors) [insert]
    (∀ d ∈ (r.sink 0).items, d.isError = false) ∧
      ∃ resolved : Statement, r.statements[0]? = some resolved ∧
        resolved.WellTyped
          (ofStatements ⟨[], 43⟩ (.ofDescriptors descriptors) ([insert].take 0)).catalog
          r.catalog := by
  intro descriptors values insert r
  have haccepted : ∀ d ∈ (r.sink 0).items, d.isError = false := by decide
  have hone : 0 < r.statements.length := by decide
  have hresolved := List.getElem?_eq_getElem hone
  exact ⟨haccepted, r.statements[0], hresolved,
    ofStatements_wellTyped descriptors ⟨[], 43⟩ [insert] 0 haccepted 0 _ hresolved⟩

end Resolution
end SqlAnalysis

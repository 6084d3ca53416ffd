import SqlAnalysis.Proofs.Resolution.Overloads
import SqlAnalysis.Proofs.Resolution.Twins

/-!
# Names and types looked at side by side

Each name is looked up alike in both runs. A type that is unknown in the second run only
makes a check say nothing there.
-/
namespace SqlAnalysis.Resolver

open ResolverState Text

variable {α : Type} {forget : Prop} {R : α → α → Prop}

/-! ### Complaints -/

theorem error_twins (message message' : String) (span : Span) :
    Twins forget (error message span) (error message' span) Eq := by
  refine .complain (fun range => ?_) span
  exact ⟨rfl, rfl, rfl⟩

theorem errorWithFix_twins (message message' : String) (span : Span) (fix fix' : Option String) :
    Twins forget (errorWithFix message span fix) (errorWithFix message' span fix') Eq := by
  refine .complain (fun range => ?_) span
  exact ⟨rfl, rfl, rfl⟩

theorem warning_twins (message message' : String) (span : Span) :
    Twins forget (warning message span) (warning message' span) Eq := by
  refine .complain (fun range => ?_) span
  exact ⟨rfl, rfl, rfl⟩

/-- A complaint that gives something. -/
theorem refuse_twins {r r' : Resolver Unit} (hr : Twins forget r r' Eq) {a a' : α} (h : R a a') :
    Twins forget (do r; return a) (do r'; return a') R :=
  hr.bind fun _ _ _ => .pure h

theorem error_failed (message : String) (span : Span) (s : ResolverState) :
    ((error message span).run s).2.Failed :=
  ⟨_, List.mem_append_right _ List.mem_cons_self, rfl⟩

theorem errorWithFix_failed (message : String) (span : Span) (fix : Option String)
    (s : ResolverState) : ((errorWithFix message span fix).run s).2.Failed :=
  ⟨_, List.mem_append_right _ List.mem_cons_self, rfl⟩

/-- Twins of which the first gives a result right away or complains of an error. -/
structure SettledTwins (forget : Prop) (r r' : Resolver α) (R : α → α → Prop) : Prop where
  twins : Twins forget r r' R
  settled : (∃ a, r = pure a) ∨ ∀ s, (r.run s).2.Failed

namespace SettledTwins

theorem pure {a a' : α} (h : R a a') : SettledTwins forget (pure a) (pure a') R :=
  ⟨.pure h, .inl ⟨a, rfl⟩⟩

theorem errorWithFix (message message' : String) (span : Span) (fix fix' : Option String) :
    SettledTwins forget (errorWithFix message span fix)
      (Resolver.errorWithFix message' span fix') Eq :=
  ⟨errorWithFix_twins _ _ _ _ _, .inr (errorWithFix_failed _ _ _)⟩

theorem error (message message' : String) (span : Span) :
    SettledTwins forget (error message span) (Resolver.error message' span) Eq :=
  ⟨error_twins _ _ _, .inr (error_failed _ _)⟩

/-- A check of a type. If the type is forgotten, the second check lets everything pass. -/
theorem forgetting {r r' : Option SqlType → Resolver α} {type type' : Option SqlType}
    (h : TypeLike forget type type')
    (hpass : ∃ a', r' none = Pure.pure a' ∧ (forget → ∀ a, R a a'))
    (hr : ∀ type, SettledTwins forget (r type) (r' type) R) :
    SettledTwins forget (r type) (r' type') R := by
  obtain rfl | ⟨hforget, rfl⟩ := h
  · exact hr type'
  · obtain ⟨a', hpass, ha⟩ := hpass
    refine ⟨?_, (hr type).settled⟩
    rw [hpass]
    rcases (hr type).settled with ⟨a, hsettled⟩ | hfails
    · rw [hsettled]
      exact .pure (ha hforget a)
    · exact .of_failed hforget (hr type).twins.orderly hfails

end SettledTwins

/-! ### Names -/

theorem catalog_twins : Twins forget catalog catalog (Catalog.Like forget) :=
  ⟨catalog_orderly, fun _ _ _ hs => .inr ⟨hs.catalog, hs⟩⟩

theorem setCatalog_twins {c c' : Catalog} (h : c.Like forget c') :
    Twins forget (setCatalog c) (setCatalog c') Eq :=
  .modifyCatalog fun _ _ _ => h

theorem addTable_twins {name name' : String} (h : foldCase name = foldCase name')
    (origin : TableOrigin) : Twins forget (addTable name origin) (addTable name' origin) Eq := by
  apply catalog_twins.bind
  intro c c' hc
  obtain ⟨hid, hadded⟩ := hc.addTable h origin
  exact (setCatalog_twins hadded).bind fun _ _ _ => .pure hid

theorem addColumn_twins (table : TableId) {column column' : Column}
    (h : column.Like forget column') :
    Twins forget (addColumn table column) (addColumn table column') Eq := by
  apply catalog_twins.bind
  intro c c' hc
  obtain ⟨hid, hadded⟩ := hc.addColumn table h
  exact (setCatalog_twins hadded).bind fun _ _ _ => .pure hid

theorem catalogTable?_twins {name name' : Ident} (h : name.Like name') :
    Twins forget (catalogTable? name) (catalogTable? name') Eq := by
  apply catalog_twins.bind
  intro c c' hc
  rw [← hc.findTables h.name, ← h.span]
  split
  · exact .pure rfl
  · exact refuse_twins (errorWithFix_twins _ _ _ _ _) rfl
  · exact refuse_twins (error_twins _ _ _) rfl

theorem visibleNames_twins (wanted : Symbol → Bool) :
    Twins forget (visibleNames wanted) (visibleNames wanted) Eq := by
  refine ⟨visibleNames_orderly wanted, fun s s' _ hs => .inr ⟨?_, hs⟩⟩
  show ((Scope.visible s.scopes).filter _).map Prod.fst = _
  rw [hs.scopes]
  rfl

/-- The complaint about a name that no open scope has, unless one of them is opaque. -/
theorem missing_twins (wanted : Symbol → Bool) (message message' : String) (span : Span)
    (fix? fix?' : List String → Option String) (a : α) :
    Twins forget
      (do
        if !(← get).isOpaque then
          let names ← visibleNames wanted
          errorWithFix message span (fix? names)
        return a)
      (do
        if !(← get).isOpaque then
          let names ← visibleNames wanted
          errorWithFix message' span (fix?' names)
        return a) Eq := by
  refine .view (missing_orderly wanted message span fix? a) fun s s' hs => ?_
  dsimp only
  rw [← hs.isOpaque]
  split
  · apply (visibleNames_twins wanted).bind
    intro _ _ _
    exact refuse_twins (errorWithFix_twins _ _ _ _ _) rfl
  · exact .pure rfl

theorem scopeTable?_twins {name name' : Ident} (h : name.Like name') :
    Twins forget (scopeTable? name) (scopeTable? name') Eq := by
  refine .view (scopeTable?_orderly name) fun s s' hs => ?_
  dsimp only
  rw [← hs.scopes, ← Scope.lookup_eq h.name, ← h.span]
  split
  · split
    · exact .pure rfl
    · exact refuse_twins (error_twins _ _ _) rfl
  · exact missing_twins _ _ _ _ _ _ _

theorem scopeColumn?_twins {name name' : Ident} (h : name.Like name') :
    Twins forget (scopeColumn? name) (scopeColumn? name') Eq := by
  refine .view (scopeColumn?_orderly name) fun s s' hs => ?_
  dsimp only
  rw [← hs.scopes, ← Scope.lookup_eq h.name, ← h.span]
  split
  · split
    · exact .pure rfl
    · exact catalog_twins.bind fun _ _ _ => refuse_twins (error_twins _ _ _) rfl
  · exact missing_twins _ _ _ _ _ _ _

theorem tableColumn?_twins (table : TableId) {name name' : Ident} (h : name.Like name') :
    Twins forget (tableColumn? table name) (tableColumn? table name') Eq := by
  apply catalog_twins.bind
  intro c c' hc
  dsimp only
  rw [← hc.findColumns table h.name, ← h.span]
  split
  · exact .pure rfl
  · exact refuse_twins (errorWithFix_twins _ _ _ _ _) rfl
  · exact refuse_twins (error_twins _ _ _) rfl

theorem columnType_twins (column : Option ColumnId) :
    Twins forget (columnType column) (columnType column) (TypeLike forget) := by
  apply catalog_twins.bind
  intro c c' hc
  cases column with
  | none => exact .pure (Std.Refl.refl _)
  | some id => exact .pure (hc.column id).type

/-! ### Types -/

theorem requireBoolean_twins (clause : String) {e e' : Expr} (h : e.Like forget e') :
    Twins forget (requireBoolean clause e) (requireBoolean clause e') Eq := by
  have htype := h.type
  unfold requireBoolean
  rw [h.span_eq]
  generalize e.type = type at htype
  generalize e'.type = type' at htype
  apply SettledTwins.twins
  apply SettledTwins.forgetting htype
  · exact ⟨(), rfl, fun _ _ => rfl⟩
  intro type
  split
  · split
    · exact .error _ _ _
    · exact .pure rfl
  · exact .pure rfl

theorem condition_twins {r r' : Resolver Expr} (h : Twins forget r r' (Expr.Like forget))
    (clause : String) (span : Span) :
    Twins forget (condition clause span r) (condition clause span r') (Expr.Like forget) := by
  refine .within (h.bind fun e e' he => ?_) span
  exact refuse_twins (requireBoolean_twins clause he) he

theorem requireInteger_twins {e e' : Expr} (h : e.Like forget e') :
    Twins forget (requireInteger e) (requireInteger e') Eq := by
  have htype := h.type
  unfold requireInteger
  rw [h.span_eq]
  generalize e.type = type at htype
  generalize e'.type = type' at htype
  apply SettledTwins.twins
  apply SettledTwins.forgetting htype
  · exact ⟨(), rfl, fun _ _ => rfl⟩
  intro type
  split
  · split
    · exact .error _ _ _
    · exact .pure rfl
  · exact .pure rfl

theorem requireMember_twins {left left' element element' : Option SqlType}
    (hleft : TypeLike forget left left') (helement : TypeLike forget element element')
    (op : BinaryOperator) (span : Span) :
    Twins forget (requireMember left element op span) (requireMember left' element' op span)
      Eq := by
  apply SettledTwins.twins
  apply SettledTwins.forgetting hleft
  · exact ⟨(), rfl, fun _ _ => rfl⟩
  intro left
  apply SettledTwins.forgetting helement
  · exact ⟨(), by cases left <;> rfl, fun _ _ => rfl⟩
  intro element
  unfold requireMember
  split
  · split
    · exact .error _ _ _
    · exact .pure rfl
  · exact .pure rfl

/-- Gives a type that is computed, or complains that there is none. -/
theorem computed_settled (result : Option SqlType) (message : String) (span : Span) :
    SettledTwins forget
      (do
        if result.isNone then
          error message span
        return result)
      (do
        if result.isNone then
          error message span
        return result) (TypeLike forget) := by
  split
  · exact ⟨refuse_twins (error_twins _ _ _) (Std.Refl.refl _), .inr (error_failed _ _)⟩
  · exact .pure (Std.Refl.refl _)

theorem binaryType_twins (op : BinaryOperator) {left left' right right' : Option SqlType}
    (hleft : TypeLike forget left left') (hright : TypeLike forget right right') (span : Span) :
    Twins forget (binaryType op left right span) (binaryType op left' right' span)
      (TypeLike forget) := by
  apply SettledTwins.twins
  apply SettledTwins.forgetting hleft
  · exact ⟨none, rfl, TypeLike.unknown⟩
  intro left
  apply SettledTwins.forgetting hright
  · exact ⟨none, by cases left <;> rfl, TypeLike.unknown⟩
  intro right
  unfold binaryType
  split
  · exact computed_settled _ _ _
  · exact .pure (Std.Refl.refl _)

theorem unaryType_twins (op : UnaryOperator) {operand operand' : Option SqlType}
    (h : TypeLike forget operand operand') (span : Span) :
    Twins forget (unaryType op operand span) (unaryType op operand' span) (TypeLike forget) := by
  apply SettledTwins.twins
  apply SettledTwins.forgetting h
  · exact ⟨none, rfl, TypeLike.unknown⟩
  intro operand
  unfold unaryType
  split
  · exact computed_settled _ _ _
  · exact .pure (Std.Refl.refl _)

theorem callType_twins {function function' : Ident} (h : function.Like function')
    {args args' : List (Option SqlType)} (hargs : List.Forall₂ (TypeLike forget) args args')
    (star : Bool) (span : Span) :
    Twins forget (callType function args star span) (callType function' args' star span)
      (TypeLike forget) := by
  have horderly := callType_orderly function args star span
  have hmatch := Signature.resolve_like h.name hargs star
  unfold callType at horderly ⊢
  rw [← h.span]
  generalize Signature.resolve function.name args star = found at hmatch horderly
  generalize Signature.resolve function'.name args' star = found' at hmatch
  cases hmatch with
  | resolved ht => exact .pure ht
  | unknownFunction => exact refuse_twins (errorWithFix_twins _ _ _ _ _) (Std.Refl.refl _)
  | wrongArity expected => exact refuse_twins (error_twins _ _ _) (Std.Refl.refl _)
  | noMatchingSignature expected => exact refuse_twins (error_twins _ _ _) (Std.Refl.refl _)
  | forgotten hforget expected _ =>
    refine .of_failed hforget horderly fun s => ?_
    exact error_failed _ _ s

theorem dot_twins {note note' : Note} (hnote : note.Like forget note') {left left' : Expr}
    (hleft : left.Like forget left') {right right' : Ident} (hright : right.Like right') :
    Twins forget (dot note left right) (dot note' left' right') (Expr.Like forget) := by
  have hother : Twins forget
      (do error "expected a table name before '.'" left.span; return Expr.dot note left right)
      (do error "expected a table name before '.'" left'.span; return Expr.dot note' left' right')
      (Expr.Like forget) := by
    rw [← hleft.span_eq]
    exact refuse_twins (error_twins _ _ _) (.dot hnote hleft hright)
  cases hleft with
  | name hleftNote htable =>
    refine (scopeTable?_twins htable).bind fun table? _ htable? => ?_
    subst htable?
    cases table? with
    | none => exact .pure (.dot hnote (.name hleftNote htable) hright)
    | some id =>
      apply (tableColumn?_twins id hright).bind
      rintro column _ rfl
      apply (columnType_twins column).bind
      intro type type' htype
      refine .pure (.dot ⟨hnote.span, htype, rfl⟩ (.name ?_ htable) hright)
      exact ⟨hleftNote.span, hleftNote.type, rfl⟩
  | _ => exact hother

theorem onlyColumnType_twins (table : TableId) {wrongCount wrongCount' : Nat → Resolver Unit}
    (h : ∀ n, Twins forget (wrongCount n) (wrongCount' n) Eq) :
    Twins forget (onlyColumnType table wrongCount) (onlyColumnType table wrongCount')
      (TypeLike forget) := by
  apply catalog_twins.bind
  intro c c' hc
  rw [← (hc.table table).columns]
  split
  · exact .pure (hc.column _).type
  · exact refuse_twins (h _) (Std.Refl.refl _)

end SqlAnalysis.Resolver

import SqlAnalysis.Proofs.Grammar.ImpliedChecks
import SqlAnalysis.Proofs.Grammar.RoundTrip
import SqlAnalysis.Proofs.SqlType.Parameters
import SqlAnalysis.Proofs.Syntax.Checks
import SqlAnalysis.Proofs.Syntax.StoredLiterals

/-!
# Clean definitions of tables

The canonical text of a table is that of a definition as well. In this definition the types
have their canonical names, defaults are written as their columns want them, and the checks
that types imply stand among the rules. It is read back without a complaint, and what is read
has no check left to add.
-/
namespace SqlAnalysis

/-! ### Types -/

namespace SqlType

variable {t : SqlType}

/-- The name of a type with its parameters. -/
def typeName (t : SqlType) : TypeName :=
  ⟨t.kind.name, t.params, Span.zero⟩

/-- The name of a kind is a word, and no keyword. -/
theorem plain_name (kind : TypeKind) : TokenKind.Plain (.name kind.name) := by
  have hall : ∀ kind ∈ TypeKind.all, Ident.writtenQuoted ⟨kind.name, false, Span.zero⟩ = false ∧
      Scan.wordKind kind.name.toList = .name kind.name := by decide +kernel
  obtain ⟨hquoted, hword⟩ := hall kind (by cases kind <;> decide)
  exact ⟨Ident.exists_word hquoted, hword⟩

theorem nameWords_typeName (t : SqlType) : t.typeName.nameWords = [t.kind.name] := by
  have hwords := TypeName.nameWords_joinWith (List.cons_ne_nil t.kind.name [])
    (List.forall_mem_singleton.mpr (plain_name t.kind)) t.params Span.zero
  rwa [joinWith_cons, List.map_nil, String.join_nil, String.append_empty] at hwords

theorem typeName_plain (h : ∀ n ∈ t.params, n ≤ Text.maxWord) : t.typeName.Plain where
  words := by
    rw [nameWords_typeName]
    exact List.forall_mem_singleton.mpr (plain_name t.kind)
  params := h

/-- No blanks stand between the parameters of a type. -/
theorem written (h : ∀ n ∈ t.params, n ≤ Text.maxWord) :
    Written endsExpr t.render t.typeName.words := by
  have hname : Written Scan.endsWord t.kind.name (t.typeName.nameWords.map .name) := by
    rw [nameWords_typeName]
    exact .name (plain_name t.kind)
  have hcomma : Written endsAny "," [.comma] :=
    ⟨fun _ _ _ hlex => .token (n := 0) rfl rfl hlex, .singleton nofun nofun⟩
  have htext : t.render = t.kind.name ++ paramText "," t.params := by
    unfold render
    cases t.params with
    | nil => exact String.append_empty.symm
    | cons n params => simp [renderParts, paramText, String.append_assoc]
  rw [htext]
  exact hname.type hcomma ⟨',', rfl, rfl⟩ h

end SqlType

/-! ### Rules -/

section

variable {P : Expr → Prop}

/-- A default as a column wants it whose type may be known. -/
def Expr.stored (type : Option SqlType) (value : Expr) : Expr :=
  match value.literal?, type with
  | some literal, some t => (t.kind.stored literal).asDefault
  | _, _ => value

theorem Expr.stored_of_none {value : Expr} (h : value.literal? = none) (type : Option SqlType) :
    value.stored type = value := by
  simp only [stored, h]

theorem Expr.stored_untyped (value : Expr) : value.stored none = value := by
  unfold stored
  cases value.literal? <;> rfl

theorem Expr.stored_of_some {value : Expr} {literal : Literal} (h : value.literal? = some literal)
    (t : SqlType) : value.stored (some t) = (t.kind.stored literal).asDefault := by
  simp only [stored, h]

theorem ColumnRule.render_default_of_none {value : Expr} (h : value.literal? = none) :
    (ColumnRule.default value).render = "DEFAULT (" ++ value.render ++ ")" := by
  simp [render, h]

theorem ColumnRule.render_default_of_some {value : Expr} {literal : Literal}
    (h : value.literal? = some literal) :
    (ColumnRule.default value).render = "DEFAULT " ++ value.render := by
  simp [render, h]

theorem ColumnRule.render_stored_of_some {value : Expr} {literal : Literal}
    (h : value.literal? = some literal) (t : SqlType) :
    (ColumnRule.default (value.stored (some t))).render = "DEFAULT " ++ (t.kind.stored literal).render := by
  rw [Expr.stored_of_some h, render, if_pos (Literal.isSome_literal?_asDefault _),
    Literal.render_asDefault]

/-- The literal of a default that was read. -/
theorem Expr.DefaultOf.signed {value : Expr} {literal : Literal}
    (h : value.DefaultOf Expr.WritesSigned) (hliteral : value.literal? = some literal) :
    literal.Signed :=
  (h.built writesSigned_builds).signed literal hliteral

theorem Expr.DefaultOf.stored {value : Expr} (h : value.DefaultOf P)
    (hsigned : value.DefaultOf Expr.WritesSigned) (type : Option SqlType) :
    (value.stored type).DefaultOf P := by
  cases hliteral : value.literal? with
  | none => rwa [Expr.stored_of_none hliteral]
  | some literal =>
    cases type with
    | none => rwa [Expr.stored_untyped]
    | some t =>
      rw [Expr.stored_of_some hliteral]
      exact (TypeKind.stored_signed t.kind (hsigned.signed hliteral)).asDefault_built

/-- The rule with its default as the column wants it. -/
def ColumnRule.clean (type : Option SqlType) : ColumnRule → ColumnRule
  | .default value => .default (value.stored type)
  | rule => rule

theorem ColumnRule.checks_clean (type : Option SqlType) (rule : ColumnRule) :
    (rule.clean type).checks = rule.checks := by
  cases rule <;> rfl

theorem ColumnRule.BuiltOf.clean {rule : ColumnRule} (h : rule.BuiltOf P)
    (hsigned : rule.BuiltOf Expr.WritesSigned) (type : Option SqlType) :
    (rule.clean type).BuiltOf P := by
  cases rule with
  | default value => exact Expr.DefaultOf.stored h hsigned type
  | _ => exact h

namespace ColumnConstraint

variable {c c' : ColumnConstraint}

def clean (type : Option SqlType) (c : ColumnConstraint) : ColumnConstraint :=
  { c with rule := c.rule.clean type }

theorem checks_clean (type : Option SqlType) (c : ColumnConstraint) :
    (c.clean type).rule.checks = c.rule.checks :=
  c.rule.checks_clean type

theorem render_clean (type : Option SqlType) (c : ColumnConstraint) :
    (c.clean type).render = ColumnDef.canonicalConstraint type c := by
  obtain ⟨name, rule, span⟩ := c
  cases rule with
  | default value =>
    cases type with
    | none =>
      rw [clean, ColumnRule.clean, Expr.stored_untyped]
      rfl
    | some t =>
      cases hliteral : value.literal? with
      | none =>
        simp only [clean, ColumnRule.clean, Expr.stored_of_none hliteral, ColumnDef.canonicalConstraint,
          hliteral]
      | some literal =>
        simp only [clean, ColumnRule.clean, render, ColumnRule.render_stored_of_some hliteral,
          ColumnDef.canonicalConstraint, hliteral, TypeKind.render_stored, String.append_assoc]
        rfl
  | _ => rfl

theorem BuiltOf.clean (h : c.BuiltOf P) (hsigned : c.BuiltOf Expr.WritesSigned)
    (type : Option SqlType) : (c.clean type).BuiltOf P :=
  ⟨h.name, h.rule.clean hsigned.rule type⟩

end ColumnConstraint

/-! ### Columns -/

namespace ColumnDef

variable {d d' : ColumnDef}

/-- The check that the type implies, unless it is there already, as an expression. -/
def impliedExpr? (d : ColumnDef) : Option Expr :=
  (d.knownType?.bind fun t => t.check? d.name).filter fun e => !d.hasCheck e.render

theorem impliedCheck?_eq (d : ColumnDef) : d.impliedCheck? = d.impliedExpr?.map Expr.render := by
  unfold impliedCheck? impliedExpr?
  cases d.knownType? with
  | none => rfl
  | some t =>
    rw [Option.bind_some, Option.bind_some, SqlType.constraint?_eq, Option.filter_map]
    rfl

/-- Whether a check is missing is told by the type, the name and the texts of the checks. -/
theorem impliedCheck?_congr (htype : d'.knownType? = d.knownType?)
    (hname : d'.name.render = d.name.render)
    (hchecks : d'.checks.map Expr.render = d.checks.map Expr.render) :
    d'.impliedCheck? = d.impliedCheck? := by
  have hhas (text : String) : d'.hasCheck text = d.hasCheck text := by
    rw [Bool.eq_iff_iff, hasCheck_iff, hasCheck_iff, hchecks]
  unfold impliedCheck?
  simp only [htype, hname, hhas]

/-- The rules in the order in which they are written, the implied check before the others. -/
def orderedConstraints (d : ColumnDef) : List ColumnConstraint :=
  let (checks, rules) := d.sortedConstraints.partition fun c => c.rule.isCheck
  rules ++ d.impliedExpr?.toList.map (fun e => ⟨none, .check e, Span.zero⟩) ++ checks

/-- The column that the canonical text defines. -/
def clean (d : ColumnDef) : ColumnDef :=
  { d with
    typeName := d.knownType?.elim d.typeName fun t => some t.typeName
    constraints := d.orderedConstraints.map (.clean d.knownType?) }

theorem canonical_eq (d : ColumnDef) : d.canonical = d.name.render ++ d.canonicalType ++
    String.join (d.orderedConstraints.map fun c => " " ++ canonicalConstraint d.knownType? c) := by
  let texts (cs : List ColumnConstraint) :=
    String.join (cs.map fun c => " " ++ canonicalConstraint d.knownType? c)
  have happend (cs cs' : List ColumnConstraint) : texts (cs ++ cs') = texts cs ++ texts cs' := by
    simp [texts]
  have himplied : texts (d.impliedExpr?.toList.map fun e => ⟨none, .check e, Span.zero⟩) =
      d.impliedCheck?.elim "" fun text => " CHECK (" ++ text ++ ")" := by
    rw [impliedCheck?_eq]
    cases d.impliedExpr? with
    | none => rfl
    | some e =>
      simp [texts, canonicalConstraint, ColumnConstraint.render, ColumnRule.render,
        renderConstraintName, ← String.toList_inj]
  show _ = d.name.render ++ d.canonicalType ++ texts d.orderedConstraints
  rw [orderedConstraints, happend, happend, himplied, ← String.append_assoc, ← String.append_assoc]
  unfold canonical
  cases d.impliedCheck? <;> rfl

theorem knownType?_of_none (h : d.type = none) : d.knownType? =
    d.typeName.bind fun t => (SqlType.ofParts t.name t.params).toOption := by
  rw [knownType?, h]
  rfl

/-- The known type of a column that was read is the written one. -/
theorem exists_written {t : SqlType} (h : d.type = none) (ht : d.knownType? = some t) :
    ∃ written, d.typeName = some written ∧ SqlType.ofParts written.name written.params = .ok t := by
  rw [knownType?_of_none h, Option.bind_eq_some_iff] at ht
  obtain ⟨written, hwritten, htype⟩ := ht
  refine ⟨written, hwritten, ?_⟩
  cases hparts : SqlType.ofParts written.name written.params with
  | error e =>
    rw [hparts] at htype
    cases htype
  | ok t' =>
    rw [hparts] at htype
    exact congrArg _ (Option.some.inj htype)

theorem knownType?_clean (h : d.type = none) : d.clean.knownType? = d.knownType? := by
  cases ht : d.knownType? with
  | none =>
    have hsame : d.clean.typeName = d.typeName := by rw [clean, ht, Option.elim_none]
    rw [← ht, knownType?, knownType?, hsame]
    rfl
  | some t =>
    obtain ⟨written, -, htype⟩ := exists_written h ht
    have hname : d.clean.typeName = some t.typeName := by rw [clean, ht, Option.elim_some]
    have hparts : SqlType.ofParts t.typeName.name t.typeName.params = .ok t :=
      SqlType.ofParts_name (SqlType.count_of_ofParts htype)
    rw [knownType?_of_none (show d.clean.type = none from h), hname, Option.bind_some, hparts]
    rfl

theorem mem_orderedConstraints {c : ColumnConstraint} : c ∈ d.orderedConstraints ↔
    c ∈ d.constraints ∨ ∃ e ∈ d.impliedExpr?, c = ⟨none, .check e, Span.zero⟩ := by
  unfold orderedConstraints
  rw [List.partition_eq_filter_filter]
  simp only [List.mem_append, List.mem_map, List.mem_filter, sortedConstraints, List.mem_mergeSort,
    Option.mem_toList]
  constructor
  · rintro ((⟨hc, -⟩ | ⟨e, he, rfl⟩) | ⟨hc, -⟩)
    · exact .inl hc
    · exact .inr ⟨e, he, rfl⟩
    · exact .inl hc
  · rintro (hc | ⟨e, he, rfl⟩)
    · cases hcheck : c.rule.isCheck with
      | true => exact .inr ⟨hc, rfl⟩
      | false => exact .inl (.inl ⟨hc, by rw [Function.comp_apply, hcheck]; rfl⟩)
    · exact .inl (.inr ⟨e, he, rfl⟩)

theorem mem_checks_clean {e : Expr} : e ∈ d.clean.checks ↔ e ∈ d.checks ∨ e ∈ d.impliedExpr? := by
  have hmem (d : ColumnDef) : e ∈ d.checks ↔ ∃ c ∈ d.constraints, e ∈ c.rule.checks :=
    List.mem_flatMap
  rw [hmem, hmem]
  simp only [clean, List.mem_map, exists_exists_and_eq_and, ColumnConstraint.checks_clean]
  constructor
  · rintro ⟨c, hc, he⟩
    rcases mem_orderedConstraints.mp hc with hc | ⟨e', he', rfl⟩
    · exact .inl ⟨c, hc, he⟩
    · exact .inr (List.mem_singleton.mp he ▸ he')
  · rintro (⟨c, hc, he⟩ | he)
    · exact ⟨c, mem_orderedConstraints.mpr (.inl hc), he⟩
    · exact ⟨_, mem_orderedConstraints.mpr (.inr ⟨e, he, rfl⟩), List.mem_singleton_self e⟩

/-- The canonical text has the check that the type implies. -/
theorem impliedCheck?_clean (h : d.type = none) : d.clean.impliedCheck? = none := by
  rw [impliedCheck?, knownType?_clean h, Option.filter_eq_none_iff]
  intro text htext
  obtain ⟨t, ht, hconstraint⟩ := Option.bind_eq_some_iff.mp htext
  rw [SqlType.constraint?_eq] at hconstraint
  obtain ⟨e, he, rfl⟩ := Option.map_eq_some_iff.mp hconstraint
  have hcheck : e.render ∈ d.clean.checks.map Expr.render := by
    by_cases hhas : d.hasCheck e.render = true
    · obtain ⟨e', he', htext'⟩ := List.mem_map.mp (hasCheck_iff.mp hhas)
      exact List.mem_map.mpr ⟨e', mem_checks_clean.mpr (.inl he'), htext'⟩
    · refine List.mem_map_of_mem (mem_checks_clean.mpr (.inr ?_))
      rw [impliedExpr?, ht, Option.bind_some, show t.check? d.name = some e from he]
      simp [hhas]
  simp [hasCheck_iff.mpr hcheck]

/-- The parameters of the known type are those that were read. -/
theorem BuiltOf.params_le {t : SqlType} (h : d.BuiltOf P) (ht : d.knownType? = some t) :
    ∀ n ∈ t.params, n ≤ Text.maxWord := by
  obtain ⟨written, hwritten, htype⟩ := exists_written h.type ht
  exact fun n hn => (h.typeName written hwritten).params n (SqlType.params_of_ofParts htype hn)

theorem BuiltOf.ordered {S : Select → Prop} (builds : Builds P S) (h : d.BuiltOf P) :
    ∀ c ∈ d.orderedConstraints, c.BuiltOf P := by
  intro c hc
  rcases mem_orderedConstraints.mp hc with hc | ⟨e, he, rfl⟩
  · exact h.constraints c hc
  · obtain ⟨t, ht, hcheck⟩ := Option.bind_eq_some_iff.mp (Option.filter_eq_some_iff.mp he).1
    exact ⟨nofun, SqlType.check?_builds builds h.name (h.params_le ht) hcheck⟩

theorem BuiltOf.clean {S : Select → Prop} (builds : Builds P S) (h : d.BuiltOf P)
    (hsigned : d.BuiltOf Expr.WritesSigned) : d.clean.BuiltOf P := by
  refine ⟨h.name, fun written hwritten => ?_, List.forall_mem_map.mpr fun c hc => ?_, h.type, h.binding⟩
  · cases ht : d.knownType? with
    | none =>
      rw [ColumnDef.clean, ht, Option.elim_none] at hwritten
      exact h.typeName written hwritten
    | some t =>
      rw [ColumnDef.clean, ht, Option.elim_some] at hwritten
      cases hwritten
      exact SqlType.typeName_plain (h.params_le ht)
  · exact (h.ordered builds c hc).clean (hsigned.ordered writesSigned_builds c hc) _

theorem canonical_written (h : d.BuiltOf Expr.WrittenOut) (hsigned : d.BuiltOf Expr.WritesSigned) :
    Written endsExpr d.canonical d.clean.words := by
  have hclean := h.clean writtenOut_builds hsigned
  have htype : ClauseWritten d.canonicalType (d.clean.typeName.elim [] TypeName.words) := by
    unfold canonicalType clean
    cases ht : d.knownType? with
    | none =>
      cases hwritten : d.typeName with
      | none => exact .empty
      | some written => exact .blank (TypeName.written (h.typeName written hwritten))
    | some t => exact .blank (t.written (h.params_le ht))
  have htexts : (d.orderedConstraints.map fun c => " " ++ canonicalConstraint d.knownType? c) =
      d.clean.constraints.map fun c => " " ++ c.render := by
    simp [clean, Function.comp_def, ColumnConstraint.render_clean]
  rw [canonical_eq, htexts]
  exact written_of htype hclean.constraints

end ColumnDef

/-! ### Tables -/

namespace CreateTable

variable {s : CreateTable}

/-- The definition that the canonical text gives. -/
def clean (s : CreateTable) : CreateTable :=
  { s with columns := s.columns.map .clean }

theorem items_clean (s : CreateTable) : s.clean.items = s.items.map (Sum.map ColumnDef.clean id) := by
  simp [items, clean, Function.comp_def]

theorem BuiltOf.clean {S : Select → Prop} (builds : Builds P S) (h : s.BuiltOf P)
    (hsigned : s.BuiltOf Expr.WritesSigned) : s.clean.BuiltOf P where
  name := h.name
  items := by
    rw [items_clean, ne_eq, List.map_eq_nil_iff]
    exact h.items
  columns := List.forall_mem_map.mpr fun d hd => (h.columns d hd).clean builds (hsigned.columns d hd)
  constraints := h.constraints
  binding := h.binding

theorem canonical_eq (hitems : s.items ≠ []) :
    s.canonical = "CREATE TABLE " ++ (if s.ifNotExists then "IF NOT EXISTS " else "") ++
      s.name.render ++ " (" ++ ("\n  " ++ Text.joinWith ",\n  "
        (s.items.map (Sum.elim ColumnDef.canonical TableConstraint.render)) ++ "\n") ++ ")" := by
  have htexts : s.columns.map ColumnDef.canonical ++ s.constraints.map TableConstraint.render =
      s.items.map (Sum.elim ColumnDef.canonical TableConstraint.render) := by
    simp [items, Function.comp_def]
  unfold canonical
  simp only [htexts, List.isEmpty_map, List.isEmpty_eq_false_iff.mpr hitems, Bool.false_eq_true,
    if_false, String.append_assoc]
  rfl

/-- The canonical text of a table lexes to the tokens of its definition. -/
theorem canonical_written (h : s.BuiltOf Expr.WrittenOut) (hsigned : s.BuiltOf Expr.WritesSigned) :
    Written endsExpr s.canonical s.clean.words := by
  have hline : Written endsAny "\n  " [] :=
    ⟨fun _ _ _ hlex => hlex.blank.blank.newline, .nil⟩
  have hcomma : Written endsAny ",\n  " [.comma] :=
    ⟨fun _ _ _ hlex => .token (n := 0) rfl rfl hlex.blank.blank.newline, .singleton nofun nofun⟩
  have hend : Written endsExpr "\n" [] := ⟨fun _ _ _ hlex => hlex.newline, .nil⟩
  have hitems := Written.joinWith hcomma ⟨',', rfl, rfl⟩ (s.item_written
    (fun d hd => ColumnDef.canonical_written (h.columns d hd) (hsigned.columns d hd)) h.constraints)
  have hwords : s.clean.items.map (Sum.elim ColumnDef.words TableConstraint.words) =
      s.items.map (Sum.elim (fun d => d.clean.words) TableConstraint.words) := by
    rw [items_clean, List.map_map]
    exact List.map_congr_left fun item _ => by cases item <;> rfl
  have hinner := (hline.append_any hitems).append_begins hend ⟨'\n', rfl, rfl⟩
  rw [List.append_nil, List.nil_append, ← hwords] at hinner
  rw [canonical_eq h.items]
  exact written_of (s := s.clean) hinner

end CreateTable

end

/-! ### What is read back -/

/-- A column that is kept has its type. -/
theorem ColumnDef.Kept.knownType? {d d' : ColumnDef} (h : d.Kept d') :
    d'.knownType? = d.knownType? := by
  have hbare (d : ColumnDef) : d.skeleton.knownType? = d.knownType? := by
    unfold ColumnDef.knownType? ColumnDef.skeleton
    cases d.typeName <;> rfl
  rw [← hbare, h.bare, hbare]

theorem ColumnRule.Kept.checks {rule rule' : ColumnRule} (h : rule.Kept rule') :
    rule'.checks.map Expr.render = rule.checks.map Expr.render := by
  cases h with
  | check hcondition => exact congrArg (fun text => [text]) hcondition.text
  | _ => rfl

theorem ColumnDef.Kept.checks {d d' : ColumnDef} (h : d.Kept d') :
    d'.checks.map Expr.render = d.checks.map Expr.render := by
  have hrules := map_eq_of_forall₂ (h.constraints.imp fun _ _ hc => hc.rule.checks)
  simp only [ColumnDef.checks, List.map_flatMap]
  rw [List.flatMap_def, List.flatMap_def, hrules]

/-- No check is missing at what is read from a canonical text. -/
theorem ColumnDef.Kept.impliedCheck? {d d' : ColumnDef} (htype : d.type = none)
    (h : d.clean.Kept d') : d'.impliedCheck? = none := by
  rw [impliedCheck?_congr h.knownType? h.name.text h.checks]
  exact impliedCheck?_clean htype

/-- The canonical text of a table is read without a complaint, as one statement that gives
the clean definition. -/
theorem CreateTable.canonical_keeps {source : String} {s : Statement} {table : CreateTable}
    (hshowable : ∀ t ∈ (Lexed.ofText source).tokens, t.kind.isShowable = true)
    (hs : s ∈ (Script.ofTokens (Lexed.ofText source).tokens).statements)
    (hbody : s.body = .createTable table) :
    (Lexed.ofText table.canonical).errors = [] ∧ ∃ s',
      (Script.ofTokens (Lexed.ofText table.canonical).tokens).statements = [s'] ∧
        (Script.ofTokens (Lexed.ofText table.canonical).tokens).errors = [] ∧
          ∃ table', s'.body = .createTable table' ∧ table.clean.Kept table' := by
  have hplain := Lexed.ofText_plain hshowable
  have hwritten := Script.ofTokens_built writtenOut_builds hplain s hs
  have hreread := Script.ofTokens_built reread_builds hplain s hs
  have hsigned := Script.ofTokens_built writesSigned_builds hplain s hs
  rw [hbody] at hwritten hreread hsigned
  exact Script.ofText_accepted (canonical_written hwritten hsigned) rfl
    (Parser.statement_keeps_createTable (BuiltOf.clean reread_builds hreread hsigned))

/-- The canonical text of a table is read without a complaint, as one statement that defines
a table. No check is missing at its columns. -/
theorem CreateTable.canonical_reads_back {source : String} {s : Statement} {table : CreateTable}
    (hshowable : ∀ t ∈ (Lexed.ofText source).tokens, t.kind.isShowable = true)
    (hs : s ∈ (Script.ofTokens (Lexed.ofText source).tokens).statements)
    (hbody : s.body = .createTable table) :
    (Lexed.ofText table.canonical).errors = [] ∧
      (Script.ofTokens (Lexed.ofText table.canonical).tokens).errors = [] ∧
        ∃ s' table', (Script.ofTokens (Lexed.ofText table.canonical).tokens).statements = [s'] ∧
          s'.body = .createTable table' ∧ ∀ d ∈ table'.columns, d.impliedCheck? = none := by
  obtain ⟨hlexical, s', hstatements, hsyntactic, table', hbody', hkept⟩ :=
    canonical_keeps hshowable hs hbody
  refine ⟨hlexical, hsyntactic, s', table', hstatements, hbody', fun d' hd' => ?_⟩
  obtain ⟨_, hclean, hd⟩ := exists_of_mem_right hkept.columns hd'
  obtain ⟨d, hmem, rfl⟩ := List.mem_map.mp hclean
  have hbuilt := Script.ofTokens_built writesSigned_builds (Lexed.ofText_plain hshowable) s hs
  rw [hbody] at hbuilt
  exact hd.impliedCheck? (hbuilt.columns d hmem).type

end SqlAnalysis

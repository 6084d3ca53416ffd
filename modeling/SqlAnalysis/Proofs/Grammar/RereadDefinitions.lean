import SqlAnalysis.Proofs.Grammar.RereadStatements
import SqlAnalysis.Proofs.Pointwise

/-!
# Definitions of tables read back

The columns and rules of a table are read back with the same texts and the same skeletons.
Only a default that is no literal does not keep its text: it gets another pair of brackets
each time it is written.
-/
namespace SqlAnalysis

/-! ### Literals that are kept -/

namespace Expr

variable {a b e operand : Expr} {note : Note} {value : Literal}

/-- Brackets are taken off one by one. -/
@[elab_as_elim]
theorem bracketsInduction {motive : Expr → Prop}
    (closed : ∀ e, (∀ note inner, e ≠ .brackets note inner) → motive e)
    (brackets : ∀ note inner, motive inner → motive (.brackets note inner)) : ∀ e, motive e
  | .brackets note inner => brackets note inner (bracketsInduction closed brackets inner)
  | .constant _ _ | .name _ _ | .dot _ _ _ | .binary _ _ _ _ | .unary _ _ _ | .call _ _ _
  | .callStar _ _ _ | .list _ _ | .subquery _ _ => closed _ nofun

theorem literal?_cases (h : e.literal? = some value) : (∃ note, e = .constant note value) ∨
    (∃ note note' number, e = .unary note .negate (.constant note' number)) ∨
      ∃ note inner, e = .brackets note inner ∧ inner.literal? = some value := by
  cases e with
  | constant note value' => exact .inl ⟨note, congrArg _ (Option.some.inj h)⟩
  | unary note op operand =>
    cases op with
    | not => cases h
    | negate =>
      cases operand with
      | constant note' number => exact .inr (.inl ⟨note, note', number, rfl⟩)
      | _ => cases h
  | brackets note inner => exact .inr (.inr ⟨note, inner, rfl, h⟩)
  | _ => cases h

/-- Constants write themselves, in any number of brackets, which show in their texts. -/
theorem literal?_of_skeleton (h : e.skeleton = .constant note value) :
    e.literal? = some value ∧ value.render.length ≤ e.render.length := by
  induction e using bracketsInduction with
  | closed e hbrackets =>
    cases e with
    | constant note value' =>
      obtain ⟨-, rfl⟩ := Expr.constant.inj h
      exact ⟨rfl, le_rfl⟩
    | brackets note inner => exact absurd rfl (hbrackets note inner)
    | _ => cases h
  | brackets _ inner ih =>
    obtain ⟨hliteral, hlength⟩ := ih h
    refine ⟨hliteral, ?_⟩
    rw [render, String.length_append, String.length_append]
    omega

theorem eq_constant_of_skeleton (h : e.skeleton = .constant note value)
    (htext : e.render.length ≤ value.render.length) : ∃ note, e = .constant note value := by
  cases e with
  | constant note value' => exact ⟨note, congrArg _ (Expr.constant.inj h).2⟩
  | brackets note inner =>
    have hinner := (literal?_of_skeleton (e := inner) h).2
    rw [render, String.length_append, String.length_append,
      show "(".length = 1 from rfl, show ")".length = 1 from rfl] at htext
    omega
  | _ => cases h

/-- A number with a minus sign is in brackets or starts with its sign. -/
theorem eq_negate_of_skeleton (h : e.skeleton = .unary note .negate operand) :
    (∃ note inner, e = .brackets note inner) ∨
      ∃ note operand', e = .unary note .negate operand' ∧ operand'.skeleton = operand := by
  cases e with
  | unary note op operand' =>
    obtain ⟨-, rfl, hoperand⟩ := Expr.unary.inj h
    exact .inr ⟨note, operand', rfl, hoperand⟩
  | brackets note inner => exact .inl ⟨note, inner, rfl⟩
  | _ => cases h

theorem render_brackets_ne_negate (note note' : Note) (inner operand : Expr) :
    (brackets note inner).render ≠ (unary note' .negate operand).render := by
  intro h
  have hlist := congrArg String.toList h
  simp [render] at hlist

theorem skeleton_of_literal? (h : e.literal? = some value) :
    (∃ note, e.skeleton = .constant note value) ∨
      ∃ note operand, e.skeleton = .unary note .negate operand := by
  induction e using bracketsInduction with
  | closed e hbrackets =>
    obtain ⟨note, rfl⟩ | ⟨note, note', number, rfl⟩ | ⟨note, inner, rfl, -⟩ := literal?_cases h
    · exact .inl ⟨_, rfl⟩
    · exact .inr ⟨_, _, rfl⟩
    · exact absurd rfl (hbrackets note inner)
  | brackets _ inner ih => exact ih h

/-- A constant with a minus sign before it is kept as one. -/
theorem Kept.eq_negate {note' : Note} (h : Expr.Kept (.unary note .negate (.constant note' value)) b) :
    ∃ note note', b = .unary note .negate (.constant note' value) := by
  obtain ⟨htext, hbare⟩ := h
  obtain ⟨_, inner, rfl⟩ | ⟨note, operand, rfl, hoperand⟩ := eq_negate_of_skeleton hbare
  · exact (render_brackets_ne_negate _ _ _ _ htext).elim
  · have hoperands : bracketIf operand.isOperation operand.render = value.render :=
      (String.append_right_inj "-").mp htext
    -- Brackets around the constant would make the text of the operand longer than its own.
    have hlength : operand.render.length ≤ value.render.length := by
      rw [← hoperands, bracketIf]
      split
      · rw [String.length_append, String.length_append]
        omega
      · exact le_rfl
    obtain ⟨note', rfl⟩ := eq_constant_of_skeleton hoperand hlength
    exact ⟨note, note', rfl⟩

theorem Kept.literal?_eq_some (hkept : a.Kept b) (h : a.literal? = some value) :
    b.literal? = some value := by
  induction a using bracketsInduction generalizing b with
  | closed a hbrackets =>
    obtain ⟨note, rfl⟩ | ⟨note, note', number, rfl⟩ | ⟨note, inner, rfl, -⟩ := literal?_cases h
    · exact (literal?_of_skeleton hkept.bare).1
    · obtain ⟨_, _, rfl⟩ := hkept.eq_negate
      cases number <;> exact h
    · exact absurd rfl (hbrackets note inner)
  | brackets _ inner ih =>
    have hbare : b.skeleton = inner.skeleton := hkept.bare
    obtain ⟨note, hinner⟩ | ⟨note, operand, hinner⟩ := skeleton_of_literal? h
    · exact (literal?_of_skeleton (hbare.trans hinner)).1
    · obtain ⟨_, inner', rfl⟩ | ⟨_, _, rfl, -⟩ := eq_negate_of_skeleton (hbare.trans hinner)
      · have htext := hkept.text
        rw [render, render, String.append_left_inj, String.append_right_inj] at htext
        exact ih (b := inner') ⟨htext, hbare⟩ h
      · exact (render_brackets_ne_negate _ _ _ _ hkept.text.symm).elim

/-- What is kept writes the same literal, if any. -/
theorem Kept.literal? (h : a.Kept b) : b.literal? = a.literal? := by
  have hback : b.Kept a := ⟨h.text.symm, h.bare.symm⟩
  ext value
  exact ⟨hback.literal?_eq_some, h.literal?_eq_some⟩

end Expr

/-! ### What is kept of a definition -/

/-- What a default is read back as: brackets stand around what is no literal. -/
def Expr.readDefault (value : Expr) : Expr :=
  if value.literal?.isSome then value else .brackets { span := Span.zero } value

theorem Expr.skeleton_readDefault (value : Expr) : value.readDefault.skeleton = value.skeleton := by
  unfold readDefault
  split <;> rfl

def TypeName.Kept (a b : TypeName) : Prop :=
  SqlAnalysis.Kept TypeName.render TypeName.skeleton a b

def ForeignKeyClause.Kept (a b : ForeignKeyClause) : Prop :=
  SqlAnalysis.Kept ForeignKeyClause.render ForeignKeyClause.skeleton a b

/-- What a rule of a column is read back as. -/
inductive ColumnRule.Kept : ColumnRule → ColumnRule → Prop
  | notNull : Kept .notNull .notNull
  | null : Kept .null .null
  | default {value value'} : value.readDefault.Kept value' → Kept (.default value) (.default value')
  | primaryKey (direction autoincrement) :
    Kept (.primaryKey direction autoincrement) (.primaryKey direction autoincrement)
  | unique : Kept .unique .unique
  | references {clause clause'} : clause.Kept clause' → Kept (.references clause) (.references clause')
  | collate {collation collation'} : collation.Kept collation' →
    Kept (.collate collation) (.collate collation')
  | check {condition condition'} : condition.Kept condition' →
    Kept (.check condition) (.check condition')

structure ColumnConstraint.Kept (a b : ColumnConstraint) : Prop where
  name : Option.Rel Ident.Kept a.name b.name
  rule : a.rule.Kept b.rule

structure ColumnDef.Kept (a b : ColumnDef) : Prop where
  name : a.name.Kept b.name
  typeName : Option.Rel TypeName.Kept a.typeName b.typeName
  constraints : List.Forall₂ ColumnConstraint.Kept a.constraints b.constraints
  type : b.type = a.type
  binding : b.binding = a.binding

def TableRule.Kept (a b : TableRule) : Prop :=
  SqlAnalysis.Kept TableRule.render TableRule.skeleton a b

def TableConstraint.Kept (a b : TableConstraint) : Prop :=
  SqlAnalysis.Kept TableConstraint.render TableConstraint.skeleton a b

structure CreateTable.Kept (a b : CreateTable) : Prop where
  ifNotExists : b.ifNotExists = a.ifNotExists
  name : a.name.Kept b.name
  columns : List.Forall₂ ColumnDef.Kept a.columns b.columns
  constraints : List.Forall₂ TableConstraint.Kept a.constraints b.constraints
  binding : b.binding = a.binding

theorem renderConstraintName_kept {o o' : Option Ident} (h : Option.Rel Ident.Kept o o') :
    renderConstraintName o' = renderConstraintName o := by
  cases h with
  | none => rfl
  | some hname => rw [renderConstraintName, renderConstraintName, hname.text]

/-! A definition that is kept keeps its skeleton. -/

theorem ColumnRule.Kept.bare {a b : ColumnRule} (h : a.Kept b) : b.skeleton = a.skeleton := by
  cases h with
  | default h => exact congrArg ColumnRule.default (h.bare.trans (Expr.skeleton_readDefault _))
  | references h => exact congrArg ColumnRule.references h.bare
  | collate h => exact congrArg ColumnRule.collate h.bare
  | check h => exact congrArg ColumnRule.check h.bare
  | _ => rfl

theorem ColumnConstraint.Kept.bare {a b : ColumnConstraint} (h : a.Kept b) :
    b.skeleton = a.skeleton := by
  rw [skeleton, skeleton, (SqlAnalysis.Kept.option h.name).2, h.rule.bare]

theorem ColumnDef.Kept.bare {a b : ColumnDef} (h : a.Kept b) : b.skeleton = a.skeleton := by
  have hconstraints := map_eq_of_forall₂ (h.constraints.imp fun _ _ hc => hc.bare)
  rw [skeleton, skeleton, h.name.bare, (SqlAnalysis.Kept.option h.typeName).2, hconstraints,
    h.type, h.binding]

theorem CreateTable.Kept.bare {a b : CreateTable} (h : a.Kept b) : b.skeleton = a.skeleton := by
  have hcolumns := map_eq_of_forall₂ (h.columns.imp fun _ _ hd => hd.bare)
  rw [skeleton, skeleton, h.ifNotExists, h.name.bare, hcolumns, (SqlAnalysis.Kept.map h.constraints).2,
    h.binding]

/-! ### Which tokens come next -/

namespace TokenKind

/-- Whether the items of a table, or the table, ends before a token. -/
def endsColumn (k : TokenKind) : Bool :=
  k = .comma || k = .rightParen

/-- Whether a rule of a column ends before a token: another rule begins, or the column
ends. -/
def endsRule : TokenKind → Bool
  | .comma | .rightParen => true
  | .keyword .CONSTRAINT | .keyword .NOT | .keyword .NULL | .keyword .DEFAULT
  | .keyword .PRIMARY | .keyword .UNIQUE | .keyword .REFERENCES | .keyword .COLLATE
  | .keyword .CHECK => true
  | _ => false

variable {k k' : TokenKind}

theorem endsRule_of_endsColumn (h : k.endsColumn = true) : k.endsRule = true := by
  have hk : k = .comma ∨ k = .rightParen := by simpa [endsColumn] using h
  rcases hk with rfl | rfl <;> rfl

/-- A token before which no rule ends is another one. -/
theorem ne_of_endsRule (h : k.endsRule = true) (h' : k'.endsRule = false) : k ≠ k' := by
  rintro rfl
  rw [h] at h'
  cases h'

theorem ne_of_endsColumn (h : k.endsColumn = true) (h' : k'.endsColumn = false) : k ≠ k' := by
  rintro rfl
  rw [h] at h'
  cases h'

end TokenKind

theorem startsTableConstraint_of_nameOf? {k : TokenKind} {name : String × Bool}
    (h : Parser.nameOf? k = some name) : Parser.startsTableConstraint k = false := by
  cases k with
  | keyword word => cases word <;> first | rfl | cases h
  | _ => rfl

theorem ColumnConstraint.head_words (c : ColumnConstraint) (left : List TokenKind) :
    (headKind (c.words ++ left)).endsRule = true := by
  obtain ⟨_ | name, rule, span⟩ := c
  · cases rule <;> rfl
  · rfl

theorem TableConstraint.head_words (c : TableConstraint) (left : List TokenKind) :
    Parser.startsTableConstraint (headKind (c.words ++ left)) = true := by
  obtain ⟨_ | name, rule, span⟩ := c
  · cases rule <;> rfl
  · rfl

namespace Parser

variable {left : List TokenKind}

/-! ### Types -/

theorem typeWord?_accepts (word : String) :
    Accepts typeWord? (.name word :: left) left fun o => ∃ word', o = some word' ∧ word = word' :=
  .peek (advance_accepts.bind fun _ _ => .pure ⟨word, rfl, rfl⟩)

theorem typeWord?_passes (h : ∀ word, headKind left ≠ .name word) :
    Accepts typeWord? left left (· = none) := by
  refine .peek ?_
  split
  · next word hword => exact absurd hword (h word)
  · exact .pure rfl

theorem typeWords_accepts (words : List String) (h : ∀ word, headKind left ≠ .name word) :
    Accepts (many typeWord?) (words.map .name ++ left) left (· = words) := by
  have hflat : words.map TokenKind.name = words.flatMap fun word => [.name word] := by
    induction words with
    | nil => rfl
    | cons word words ih => simp [ih]
  rw [hflat]
  have hmany : Accepts (many typeWord?) (words.flatMap (fun word => [.name word]) ++ left) left
      (List.Forall₂ (· = ·) words) :=
    @many_accepts _ _ _ _ _ _ (fun _ => true) rfl (typeWord?_passes h) _
      (fun _ _ => List.cons_ne_nil _ _) (fun _ _ _ => rfl) fun word _ rest _ _ => typeWord?_accepts word
  refine hmany.mono fun words' hwords => ?_
  rw [List.forall₂_eq_eq_eq] at hwords
  exact hwords.symm

theorem typeParam_accepts {n : Nat} (h : n ≤ Text.maxWord) :
    Accepts typeParam (.integer n :: left) left (n = ·) := by
  refine current_accepts.bind fun t ht => ?_
  rw [ht]
  refine advance_accepts.bind fun _ _ => ?_
  rw [if_pos h]
  exact .pure rfl

theorem typeParams_accepts {params : List Nat} (h : ∀ n ∈ params, n ≤ Text.maxWord)
    (hleft : headKind left ≠ .leftParen) :
    Accepts typeParams (paramWords params ++ left) left (· = params) := by
  cases params with
  | nil => exact .eat_other hleft (.pure rfl)
  | cons n params =>
    show Accepts typeParams (enclosed _ ++ left) left _
    rw [enclosed_append]
    refine .eat_head ((commaSeparated_accepts rfl rfl (by simp [headKind]) (List.cons_ne_nil n params)
      fun m hm rest (_ : (headKind rest).endsColumn = true) _ => typeParam_accepts (h m hm)).bind
        fun params' hparams => (expect_accepts _).bind fun _ _ => .pure ?_)
    rw [List.forall₂_eq_eq_eq] at hparams
    exact hparams.symm

/-- A type ends where a rule or another item begins. -/
theorem typeName?_accepts {o : Option TypeName} (h : ∀ t ∈ o, t.Plain)
    (hleft : (headKind left).endsRule = true) :
    Accepts typeName? (o.elim [] TypeName.words ++ left) left
      (Option.Rel TypeName.Kept o) := by
  have hname (word : String) : headKind left ≠ .name word := TokenKind.ne_of_endsRule hleft rfl
  have hparen : headKind left ≠ .leftParen := TokenKind.ne_of_endsRule hleft rfl
  cases o with
  | none =>
    refine current_accepts_any.bind fun _ _ => (typeWords_accepts [] hname).bind fun words hwords => ?_
    subst hwords
    exact .pure .none
  | some t =>
    have hwords (word : String) : headKind (paramWords t.params ++ left) ≠ .name word := by
      cases t.params with
      | nil => exact hname word
      | cons n params => rintro ⟨⟩
    show Accepts typeName? (t.words ++ left) left _
    rw [TypeName.words, List.append_assoc]
    refine current_accepts_any.bind fun start _ => (typeWords_accepts _ hwords).bind
      fun words hnames => ?_
    have htype : Accepts (do return some ⟨Text.joinWith " " words, ← typeParams, ← spanFrom start.span⟩)
        (paramWords t.params ++ left) left (Option.Rel TypeName.Kept (some t)) := by
      refine (typeParams_accepts (h t rfl).params hparen).bind fun params hparams =>
        (spanFrom_accepts _).bind fun span _ => .pure (.some ?_)
      rw [hnames, hparams, t.joinWith_nameWords]
      exact ⟨rfl, rfl⟩
    cases words with
    | nil => exact absurd (List.map_eq_nil_iff.mp hnames.symm) (Text.split_ne_nil ' ' t.name.toList)
    | cons word words => exact htype

/-! ### Rules of columns -/

theorem foreignKeyClause_accepts {clause : ForeignKeyClause} (h : clause.Plain)
    (hleft : headKind left ≠ .leftParen) :
    Accepts foreignKeyClause (clause.words ++ left) left clause.Kept := by
  refine (expect_accepts _).bind fun _ _ => tablesHint_accepts.bind fun _ _ =>
    (under_accepts _ (ident_accepts h.table)).bind fun table' htable =>
      (columnsOf_accepts table' h.columns hleft).bind fun columns' hcolumns => .pure ?_
  obtain ⟨htexts, hbares⟩ := columnList_kept hcolumns
  constructor
  · rw [ForeignKeyClause.render, ForeignKeyClause.render, htable.text, htexts]
  · rw [ForeignKeyClause.skeleton, ForeignKeyClause.skeleton, htable.bare, hbares]

theorem bracketed_accepts {e : Expr} (h : e.Reread) :
    Accepts bracketed (enclosed e.words ++ left) left e.Kept := by
  rw [enclosed_append]
  exact (expect_accepts _).bind fun _ _ => (expr_accepts h rfl).bind fun e' he =>
    (expect_accepts _).bind fun _ _ => .pure he

theorem constraintName?_accepts {o : Option Ident} (h : ∀ name ∈ o, name.Plain)
    (hleft : headKind left ≠ .keyword .CONSTRAINT) :
    Accepts constraintName? (constraintNameWords o ++ left) left (Option.Rel Ident.Kept o) := by
  cases o with
  | none =>
    refine (after_passes hleft).mono ?_
    rintro _ rfl
    exact .none
  | some name =>
    refine (after_accepts (ident_accepts (h name rfl))).mono ?_
    rintro _ ⟨name', rfl, hname⟩
    exact .some hname

/-- An expression in brackets is a default. -/
theorem defaultValue_brackets {e : Expr} (h : e.Reread) (span : Span) :
    Accepts defaultValue (enclosed e.words ++ left) left
      (Expr.Kept (.brackets { span := span } e)) := by
  refine (literal?_passes rfl).bind fun o ho => ?_
  subst ho
  exact .peek (current_accepts_any.bind fun _ _ => (bracketed_accepts h).bind fun e' he =>
    (spanFrom_accepts _).bind fun _ _ => .pure ⟨by rw [Expr.render, Expr.render, he.text], he.bare⟩)

theorem defaultValue_negative {value : Literal} (h : value.Plain) (hnumber : value.isNumber = true)
    (span span' : Span) :
    Accepts defaultValue (.minus :: value.word :: left) left
      (Expr.Kept (.unary { span := span } .negate (.constant { span := span' } value))) := by
  refine (literal?_passes rfl).bind fun o ho => ?_
  subst ho
  have hsigned : Accepts signedNumber (.minus :: value.word :: left) left
      fun e => ∃ span span', e = .unary { span := span } .negate (.constant { span := span' } value) := by
    refine .peekAt ?_
    cases value with
    | integer _ => exact exprAt_minus h.literalOf?
    | float _ => exact exprAt_minus h.literalOf?
    | _ => cases hnumber
  refine (Accepts.peek hsigned).mono ?_
  rintro _ ⟨span, span', rfl⟩
  exact ⟨rfl, rfl⟩

theorem defaultValue_accepts {value : Expr} (h : value.DefaultOf Expr.Reread) :
    Accepts defaultValue
      ((if value.literal?.isSome then value.words else enclosed value.words) ++ left) left
        value.readDefault.Kept := by
  have hreread := h.built reread_builds
  unfold Expr.readDefault
  split
  · next hliteral =>
    cases h with
    | constant hvalue =>
      refine (literal?_accepts hvalue.literalOf?).bind ?_
      rintro _ ⟨span, rfl⟩
      exact .pure ⟨rfl, rfl⟩
    | negative hvalue hnumber => exact defaultValue_negative hvalue hnumber _ _
    | name _ => cases hliteral
    | brackets hinner => exact defaultValue_brackets hinner _
  · exact defaultValue_brackets hreread _

theorem columnRule?_accepts {rule : ColumnRule} (h : rule.BuiltOf Expr.Reread)
    (hleft : (headKind left).endsRule = true) :
    Accepts columnRule? (rule.words ++ left) left
      fun o => ∃ rule', o = some rule' ∧ rule.Kept rule' := by
  have hother (word : Keyword) (hword : TokenKind.endsRule (.keyword word) = false) :
      headKind left ≠ .keyword word := TokenKind.ne_of_endsRule hleft hword
  cases rule with
  | notNull =>
    exact .peek (advance_accepts.bind fun _ _ => (expect_accepts _).bind fun _ _ =>
      .pure ⟨_, rfl, .notNull⟩)
  | null => exact .peek (advance_accepts.bind fun _ _ => .pure ⟨_, rfl, .null⟩)
  | default value =>
    exact .peek (advance_accepts.bind fun _ _ => (defaultValue_accepts h).bind fun value' hvalue =>
      .pure ⟨_, rfl, .default hvalue⟩)
  | primaryKey direction autoincrement =>
    have hauto : Accepts (eatWord .AUTOINCREMENT)
        ((if autoincrement then [.keyword .AUTOINCREMENT] else []) ++ left) left
          (· = autoincrement) := by
      cases autoincrement with
      | true => exact eat_accepts
      | false => exact eat_passes (hother .AUTOINCREMENT rfl)
    have hends (word : Keyword) (hword : TokenKind.endsRule (.keyword word) = false)
        (hne : word ≠ .AUTOINCREMENT) :
        headKind ((if autoincrement then [.keyword .AUTOINCREMENT] else []) ++ left) ≠
          .keyword word := by
      cases autoincrement with
      | true => exact fun heq => hne (TokenKind.keyword.inj heq).symm
      | false => exact hother word hword
    show Accepts columnRule? (.keyword .PRIMARY :: .keyword .KEY :: directionWords direction ++
      (if autoincrement then [.keyword .AUTOINCREMENT] else []) ++ left) left _
    rw [List.append_assoc]
    refine .peek (advance_accepts.bind fun _ _ => (expect_accepts _).bind fun _ _ =>
      (direction?_accepts (hends .ASC rfl nofun) (hends .DESC rfl nofun)).bind
        fun direction' hdirection => hauto.bind fun autoincrement' hautoincrement => ?_)
    subst hdirection hautoincrement
    exact .pure ⟨_, rfl, .primaryKey _ _⟩
  | unique => exact .peek (advance_accepts.bind fun _ _ => .pure ⟨_, rfl, .unique⟩)
  | references clause =>
    exact .peek ((foreignKeyClause_accepts h (TokenKind.ne_of_endsRule hleft rfl)).bind
      fun clause' hclause => .pure ⟨_, rfl, .references hclause⟩)
  | collate collation =>
    exact .peek (advance_accepts.bind fun _ _ => (ident_accepts h).bind fun collation' hcollation =>
      .pure ⟨_, rfl, .collate hcollation⟩)
  | check condition =>
    exact .peek (advance_accepts.bind fun _ _ => (bracketed_accepts h).bind fun condition' hcondition =>
      .pure ⟨_, rfl, .check hcondition⟩)

theorem columnRule?_passes (hleft : (headKind left).endsColumn = true) :
    Accepts columnRule? left left (· = none) := by
  have hk : headKind left = .comma ∨ headKind left = .rightParen := by
    simpa [TokenKind.endsColumn] using hleft
  refine .peek ?_
  rcases hk with hk | hk <;> rw [hk] <;> exact .pure rfl

theorem columnConstraint?_accepts {c : ColumnConstraint} (h : c.BuiltOf Expr.Reread)
    (hleft : (headKind left).endsRule = true) :
    Accepts columnConstraint? (c.words ++ left) left
      fun o => ∃ c', o = some c' ∧ c.Kept c' := by
  have hrule : headKind (c.rule.words ++ left) ≠ .keyword .CONSTRAINT := by
    cases c.rule <;> rintro ⟨⟩
  rw [ColumnConstraint.words, List.append_assoc]
  refine current_accepts_any.bind fun _ _ => (constraintName?_accepts h.name hrule).bind
    fun name' hname => (columnRule?_accepts h.rule hleft).bind ?_
  rintro _ ⟨rule', rfl, hrule'⟩
  exact (spanFrom_accepts _).bind fun span _ => .pure ⟨_, rfl, hname, hrule'⟩

theorem columnConstraint?_passes (hleft : (headKind left).endsColumn = true) :
    Accepts columnConstraint? left left (· = none) := by
  refine current_accepts_any.bind fun _ _ =>
    (after_passes (TokenKind.ne_of_endsColumn hleft rfl)).bind fun name hname =>
      (columnRule?_passes hleft).bind fun rule hrule => ?_
  subst hname hrule
  exact .pure rfl

/-! ### Columns and rules of tables -/

theorem columnDef_accepts {d : ColumnDef} (h : d.BuiltOf Expr.Reread)
    (hleft : (headKind left).endsColumn = true) :
    Accepts columnDef (d.words ++ left) left d.Kept := by
  have hends : (headKind (d.constraints.flatMap ColumnConstraint.words ++ left)).endsRule = true := by
    cases d.constraints with
    | nil => exact TokenKind.endsRule_of_endsColumn hleft
    | cons c cs =>
      rw [List.flatMap_cons, List.append_assoc]
      exact c.head_words _
  have hne (c : ColumnConstraint) : c.words ≠ [] := by
    intro hnil
    have hhead := c.head_words []
    rw [hnil] at hhead
    cases hhead
  have hconstraints : Accepts (many columnConstraint?)
      (d.constraints.flatMap ColumnConstraint.words ++ left) left
        (List.Forall₂ ColumnConstraint.Kept d.constraints) :=
    many_accepts (TokenKind.endsRule_of_endsColumn hleft) (columnConstraint?_passes hleft)
      (fun c _ => hne c) (fun c _ rest => c.head_words rest)
        fun c hc rest hrest _ => columnConstraint?_accepts (h.constraints c hc) hrest
  rw [ColumnDef.words, List.cons_append, List.cons_append, List.append_assoc]
  refine (ident_accepts h.name).bind fun name' hname => (keywordsHint_accepts _).bind fun _ _ =>
    (under_accepts _ (typeName?_accepts h.typeName hends)).bind fun type' htype =>
      (keywordsHint_accepts _).bind fun _ _ => (under_accepts _ hconstraints).bind
        fun constraints' hconstraints' => (spanFrom_accepts _).bind fun span _ =>
          .pure ⟨hname, htype, hconstraints', h.type.symm, h.binding.symm⟩

theorem tableRule_accepts {rule : TableRule} (h : rule.BuiltOf Expr.Reread)
    (hleft : (headKind left).endsColumn = true) :
    Accepts tableRule (rule.words ++ left) left rule.Kept := by
  have hnames {columns : List Ident} (hcolumns : columns ≠ [] ∧ ∀ name ∈ columns, name.Plain)
      (left : List TokenKind) :
      Accepts identList (identWords columns ++ left) left
        fun columns' => renderIdents columns' = renderIdents columns ∧
          columns'.map Ident.skeleton = columns.map Ident.skeleton :=
    (identList_accepts hcolumns.1 hcolumns.2).mono fun _ h =>
      (Kept.map h).imp_left (congrArg bracketList)
  cases rule with
  | primaryKey columns =>
    exact .peek (advance_accepts.bind fun _ _ => (expect_accepts _).bind fun _ _ =>
      (hnames h _).bind fun columns' hcolumns => .pure
        ⟨congrArg ("PRIMARY KEY " ++ ·) hcolumns.1, congrArg TableRule.primaryKey hcolumns.2⟩)
  | unique columns =>
    exact .peek (advance_accepts.bind fun _ _ => (hnames h _).bind fun columns' hcolumns => .pure
      ⟨congrArg ("UNIQUE " ++ ·) hcolumns.1, congrArg TableRule.unique hcolumns.2⟩)
  | check condition =>
    refine .peek (advance_accepts.bind fun _ _ => (bracketed_accepts h).bind
      fun condition' hcondition => .pure ⟨?_, congrArg TableRule.check hcondition.bare⟩)
    rw [TableRule.render, TableRule.render, hcondition.text]
  | foreignKey columns clause =>
    have hclause := foreignKeyClause_accepts h.2 (TokenKind.ne_of_endsColumn hleft rfl)
    rw [TableRule.words, List.cons_append, List.cons_append, List.cons_append, List.cons_append,
      List.append_assoc]
    refine .peek (advance_accepts.bind fun _ _ => (expect_accepts _).bind fun _ _ =>
      (hnames h.1 _).bind fun columns' hcolumns => hclause.bind fun clause' hclause' => .pure ⟨?_, ?_⟩)
    · rw [TableRule.render, TableRule.render, hcolumns.1, hclause'.text]
    · rw [TableRule.skeleton, TableRule.skeleton, hcolumns.2, hclause'.bare]

theorem tableConstraint_accepts {c : TableConstraint} (h : c.BuiltOf Expr.Reread)
    (hleft : (headKind left).endsColumn = true) :
    Accepts tableConstraint (c.words ++ left) left c.Kept := by
  have hrule : headKind (c.rule.words ++ left) ≠ .keyword .CONSTRAINT := by
    cases c.rule <;> rintro ⟨⟩
  rw [TableConstraint.words, List.append_assoc]
  refine current_accepts_any.bind fun _ _ => (constraintName?_accepts h.name hrule).bind
    fun name' hname => (tableRule_accepts h.rule hleft).bind fun rule' hrule' =>
      (spanFrom_accepts _).bind fun span _ => .pure ⟨?_, ?_⟩
  · rw [TableConstraint.render, TableConstraint.render, renderConstraintName_kept hname, hrule'.text]
  · rw [TableConstraint.skeleton, TableConstraint.skeleton, (Kept.option hname).2, hrule'.bare]

/-- The first token tells whether an item is a column. -/
theorem tableItem_accepts {item : ColumnDef ⊕ TableConstraint}
    (h : item.elim (ColumnDef.BuiltOf Expr.Reread) (TableConstraint.BuiltOf Expr.Reread))
    (hleft : (headKind left).endsColumn = true) :
    Accepts tableItem (item.elim ColumnDef.words TableConstraint.words ++ left) left
      (Sum.LiftRel ColumnDef.Kept TableConstraint.Kept item) := by
  refine .peek ?_
  cases item with
  | inl d =>
    have hname : startsTableConstraint (headKind (d.words ++ left)) = false :=
      startsTableConstraint_of_nameOf? h.name
    rw [Sum.elim_inl, hname]
    exact (columnDef_accepts h hleft).bind fun d' hd => .pure (.inl hd)
  | inr c =>
    rw [Sum.elim_inr, c.head_words]
    exact (tableConstraint_accepts h hleft).bind fun c' hc => .pure (.inr hc)

theorem ifNotExists_accepts {given : Bool} (hleft : left.getD 1 .eof ≠ .keyword .NOT) :
    Accepts ifNotExists
      ((if given then [.keyword .IF, .keyword .NOT, .keyword .EXISTS] else []) ++ left) left
        (· = given) := by
  cases given with
  | true =>
    exact .check_head (.peekAt (advance_accepts.bind fun _ _ => advance_accepts.bind fun _ _ =>
      (expect_accepts _).bind fun _ _ => .pure rfl))
  | false =>
    refine .check (.peekAt ?_)
    simp only [Bool.false_eq_true, if_false, List.nil_append, beq_false_of_ne hleft, Bool.and_false]
    exact .pure rfl

end Parser

/-! ### Tables -/

section

variable {α β : Type} {R : α → α → Prop} {S : β → β → Prop} {items items' : List (α ⊕ β)}

theorem forall₂_lefts (h : List.Forall₂ (Sum.LiftRel R S) items items') :
    List.Forall₂ R (items.filterMap Sum.getLeft?) (items'.filterMap Sum.getLeft?) := by
  induction h with
  | nil => exact .nil
  | cons hitem _ ih =>
    cases hitem with
    | inl hd => exact .cons hd ih
    | inr _ => exact ih

theorem forall₂_rights (h : List.Forall₂ (Sum.LiftRel R S) items items') :
    List.Forall₂ S (items.filterMap Sum.getRight?) (items'.filterMap Sum.getRight?) := by
  induction h with
  | nil => exact .nil
  | cons hitem _ ih =>
    cases hitem with
    | inl _ => exact ih
    | inr hc => exact .cons hc ih

end

theorem CreateTable.lefts_items (s : CreateTable) : s.items.filterMap Sum.getLeft? = s.columns := by
  simp [items, List.filterMap_map, Function.comp_def]

theorem CreateTable.rights_items (s : CreateTable) :
    s.items.filterMap Sum.getRight? = s.constraints := by
  simp [items, List.filterMap_map, Function.comp_def]

namespace Parser

theorem createTable_accepts {s : CreateTable} (h : s.BuiltOf Expr.Reread) :
    Accepts createTable s.words [] s.Kept := by
  have hbuilt : ∀ item ∈ s.items,
      item.elim (ColumnDef.BuiltOf Expr.Reread) (TableConstraint.BuiltOf Expr.Reread) := by
    intro item hitem
    rcases List.mem_append.mp hitem with hitem | hitem
    · obtain ⟨d, hd, rfl⟩ := List.mem_map.mp hitem
      exact h.columns d hd
    · obtain ⟨c, hc, rfl⟩ := List.mem_map.mp hitem
      exact h.constraints c hc
  have hitems : Accepts (commaSeparated tableItem)
      (commaWords (s.items.map (Sum.elim ColumnDef.words TableConstraint.words)) ++ [.rightParen])
      [.rightParen] (List.Forall₂ (Sum.LiftRel ColumnDef.Kept TableConstraint.Kept) s.items) :=
    commaSeparated_accepts rfl rfl (by simp [headKind]) h.items
      fun item hitem rest hrest _ => tableItem_accepts (hbuilt item hitem) hrest
  rw [CreateTable.words, enclosed]
  refine advance_accepts.bind fun _ _ => (expect_accepts _).bind fun _ _ =>
    (ifNotExists_accepts (by rintro ⟨⟩)).bind fun given hgiven => (ident_accepts h.name).bind
      fun name' hname => (expect_accepts _).bind fun _ _ => hitems.bind fun items' hitems' =>
        (expect_accepts _).bind fun _ _ => .pure ?_
  have hcolumns := forall₂_lefts hitems'
  have hconstraints := forall₂_rights hitems'
  rw [s.lefts_items] at hcolumns
  rw [s.rights_items] at hconstraints
  exact ⟨hgiven, hname, hcolumns, hconstraints, h.binding.symm⟩

theorem statement_keeps_createTable {s : CreateTable} (h : s.BuiltOf Expr.Reread) :
    Accepts statement s.words [] fun statement =>
      ∃ s', statement.body = .createTable s' ∧ s.Kept s' := by
  have hbody : Accepts statementBody s.words [] fun body =>
      ∃ s', body = .createTable s' ∧ s.Kept s' :=
    .peek ((createTable_accepts h).bind fun s' hs' => .pure ⟨s', rfl, hs'⟩)
  exact current_accepts_any.bind fun _ _ => hbody.bind fun body' hbody' =>
    (spanFrom_accepts _).bind fun _ _ => .pure hbody'

theorem statement_accepts_createTable {s : CreateTable} (h : s.BuiltOf Expr.Reread) :
    Accepts statement s.words [] fun statement =>
      ∃ s', statement.body = .createTable s' ∧ s'.skeleton = s.skeleton :=
  (statement_keeps_createTable h).mono fun _ ⟨s', hbody, hkept⟩ => ⟨s', hbody, hkept.bare⟩

end Parser
end SqlAnalysis

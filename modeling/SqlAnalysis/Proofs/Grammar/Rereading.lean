import SqlAnalysis.Proofs.Grammar.Acceptance
import SqlAnalysis.Proofs.Syntax.Construction
import SqlAnalysis.Proofs.Syntax.Skeleton

/-!
# What is read back

The tokens of an expression should be accepted, and what they are read as should have
the same text and the same skeleton. That is said here of an expression alone, as an
operand, and as what stands between brackets, and passed on from there to the parsers for
operands, operators, lists and queries inside.
-/
namespace SqlAnalysis

/-! ### Which tokens come next -/

namespace TokenKind

/-- Whether no operator begins with a token, and no name goes on with it. -/
def endsExpr : TokenKind → Bool
  | .keyword .OR | .keyword .AND | .keyword .LIKE | .keyword .NOT | .keyword .IN => false
  | .eq | .notEq | .lt | .le | .gt | .ge | .concat | .plus | .minus | .star | .slash
  | .percent => false
  | .dot | .leftParen => false
  | _ => true

/-- Whether a name does not go on with a token. -/
def endsName (k : TokenKind) : Bool :=
  k ≠ .dot && k ≠ .leftParen

/-- Whether the tokens of an expression may begin with a token. No plus sign is written
before an operand. -/
def beginsExpr (k : TokenKind) : Bool :=
  (Parser.literalOf? k).isSome || Parser.isNameStart k || k = .minus || k = .keyword .NOT ||
    k = .leftParen

variable {k : TokenKind}

theorem endsName_of_endsExpr (h : k.endsExpr = true) : k.endsName = true := by
  cases k <;> first | rfl | cases h

theorem ofTokens?_of_endsExpr (h : k.endsExpr = true) (next : TokenKind) :
    BinaryOperator.ofTokens? k next = none := by
  cases k with
  | keyword word => cases word <;> first | rfl | cases h
  | _ => first | rfl | cases h

theorem beginsExpr_of_isNameStart (h : Parser.isNameStart k = true) : k.beginsExpr = true := by
  simp [beginsExpr, h]

end TokenKind

/-- Whether tokens look like those of a table with a star after it. -/
def startsTableStar (ks : List TokenKind) : Bool :=
  Parser.isNameStart (headKind ks) && ks.getD 1 .eof == .dot && ks.getD 2 .eof == .star

theorem headKind_append {ks : List TokenKind} (h : ks ≠ []) (left : List TokenKind) :
    headKind (ks ++ left) = headKind ks := by
  cases ks with
  | nil => exact absurd rfl h
  | cons k ks => rfl

theorem enclosed_append (words left : List TokenKind) :
    enclosed words ++ left = .leftParen :: (words ++ .rightParen :: left) := by
  simp [enclosed]

namespace BinaryOperator

variable (op : BinaryOperator)

/-- The words of an operator are recognized, and no others. -/
theorem ofTokens?_words (rest : List TokenKind) :
    ofTokens? (headKind (op.words ++ rest)) ((op.words ++ rest).getD 1 .eof) =
      some (op, op.words.length) := by
  cases op <;> rfl

theorem words_endsName (rest : List TokenKind) :
    (headKind (op.words ++ rest)).endsName = true := by
  cases op <;> rfl

end BinaryOperator

/-! ### What is kept -/

/-- Whether what is read back has the same text and the same skeleton. -/
structure Kept {α τ : Type} (text : α → τ) (bare : α → α) (a b : α) : Prop where
  text : text b = text a
  bare : bare b = bare a

namespace Kept

variable {α τ : Type} {text : α → τ} {bare : α → α}

theorem map {as bs : List α} (h : List.Forall₂ (Kept text bare) as bs) :
    bs.map text = as.map text ∧ bs.map bare = as.map bare := by
  induction h with
  | nil => exact ⟨rfl, rfl⟩
  | cons hab _ ih => simp [hab.text, hab.bare, ih]

theorem option {text : α → String} {o o' : Option α} (h : Option.Rel (Kept text bare) o o') :
    o'.elim "" text = o.elim "" text ∧ o'.map bare = o.map bare := by
  cases h with
  | none => exact ⟨rfl, rfl⟩
  | some hab => simp [hab.text, hab.bare]

end Kept

def Ident.Kept (a b : Ident) : Prop := SqlAnalysis.Kept Ident.render Ident.skeleton a b

def Expr.Kept (a b : Expr) : Prop := SqlAnalysis.Kept Expr.render Expr.skeleton a b

def Select.Kept (a b : Select) : Prop := SqlAnalysis.Kept Select.render Select.skeleton a b

/-- What an operand is read back as, up to `view`, which `IN` needs for its members. It
has the brackets that stand in the text, if any, and so is no operation. -/
structure Expr.KeptOperand (view : Expr → Expr) (a b : Expr) : Prop where
  text : b.render = bracketIf a.isOperation a.render
  closed : b.isOperation = false
  bare : view b.skeleton = view a.skeleton

theorem Expr.KeptOperand.render {view : Expr → Expr} {a b : Expr} (h : a.KeptOperand view b) :
    bracketIf b.isOperation b.render = bracketIf a.isOperation a.render := by
  rw [h.closed, ← h.text]
  rfl

namespace Parser

variable {inner : Nested} {k : TokenKind} {ks left : List TokenKind}

/-! ### Names and literals -/

theorem ident_accepts {ident : Ident} (h : ident.Plain) :
    Accepts Parser.ident (ident.word :: left) left ident.Kept := by
  refine current_accepts.bind fun t ht => ?_
  rw [ht, h]
  refine advance_accepts.bind fun _ _ => .pure ⟨?_, rfl⟩
  simp [Ident.render, Ident.writtenQuoted]

theorem alias?_accepts {label : Option Ident} (h : ∀ name ∈ label, name.Plain)
    (hleft : headKind left ≠ .keyword .AS) (hleft' : isOwnName (headKind left) = false) :
    Accepts alias? (aliasWords label ++ left) left (Option.Rel Ident.Kept label) := by
  cases label with
  | none =>
    refine .eat_other hleft (.peek ?_)
    rw [show headKind (aliasWords none ++ left) = headKind left from rfl, hleft']
    exact .pure .none
  | some name => exact .eat_head ((ident_accepts (h name rfl)).bind fun b hb => .pure (.some hb))

theorem literal?_passes (h : literalOf? (headKind ks) = none) :
    Accepts literal? ks ks (· = none) := by
  refine .peek ?_
  rw [h]
  exact .pure rfl

theorem literal?_accepts {value : Literal} (h : literalOf? k = some value) :
    Accepts literal? (k :: ks) ks fun o => ∃ span, o = some (.constant { span := span } value) := by
  refine .peek ?_
  rw [show headKind (k :: ks) = k from rfl, h]
  exact advance_accepts.bind fun t _ => .pure ⟨t.span, rfl⟩

/-! ### Operands by their first token -/

section

variable {Q : Expr → Prop}

theorem operand_minus (h : Accepts (minusTerm inner) (.minus :: ks) left Q) :
    Accepts (operand inner) (.minus :: ks) left Q := by
  refine (literal?_passes rfl).bind fun o ho => ?_
  subst ho
  exact .peek h

theorem operand_not (h : Accepts (notTerm inner) (.keyword .NOT :: ks) left Q) :
    Accepts (operand inner) (.keyword .NOT :: ks) left Q := by
  refine (literal?_passes rfl).bind fun o ho => ?_
  subst ho
  exact .peek h

theorem operand_bracket (h : Accepts (bracketTerm inner) (.leftParen :: ks) left Q) :
    Accepts (operand inner) (.leftParen :: ks) left Q := by
  refine (literal?_passes rfl).bind fun o ho => ?_
  subst ho
  exact .peek h

theorem operand_name (hk : isNameStart k = true) (h : Accepts (nameTerm inner) (k :: ks) left Q) :
    Accepts (operand inner) (k :: ks) left Q := by
  have hliteral : literalOf? (headKind (k :: ks)) = none := by
    cases k with
    | keyword word => cases word <;> first | rfl | cases hk
    | _ => first | rfl | cases hk
  refine (literal?_passes hliteral).bind fun o ho => ?_
  subst ho
  refine .peek ?_
  cases k with
  | name text => exact h
  | quotedName text => exact h
  | keyword word => cases word <;> first | exact h | cases hk
  | _ => cases hk

theorem operand_literal {value : Literal} (hvalue : literalOf? k = some value)
    (h : ∀ span, Q (.constant { span := span } value)) :
    Accepts (operand inner) (k :: ks) ks Q := by
  refine (literal?_accepts hvalue).bind ?_
  rintro _ ⟨span, rfl⟩
  exact .pure (h span)

/-! ### Operators -/

theorem operations_stop (hleft : (headKind left).endsExpr = true) (power n : Nat) (e : Expr) :
    Accepts (operations inner power n e) left left (· = e) := by
  cases n with
  | zero => exact .pure rfl
  | succ n =>
    refine .peek (.peekAt ?_)
    rw [TokenKind.ofTokens?_of_endsExpr hleft]
    exact .pure rfl

/-- An operand with nothing after it is an expression of any power. -/
theorem exprWith_operand (hleft : (headKind left).endsExpr = true) (power : Nat)
    (h : Accepts (operand inner) ks left Q) : Accepts (exprWith inner power) ks left Q := by
  refine h.bind fun e he => .get fun _ _ => (operations_stop hleft _ _ e).mono ?_
  rintro _ rfl
  exact he

/-- No operator binds stronger than a sign. -/
theorem operations_tight (n : Nat) (e : Expr) :
    Accepts (operations inner BinaryOperator.signPower n e) left left (· = e) := by
  cases n with
  | zero => exact .pure rfl
  | succ n =>
    refine .peek (.peekAt ?_)
    split
    · exact .pure rfl
    · next op _ _ =>
      rw [if_pos (by cases op <;> decide)]
      exact .pure rfl

theorem exprWith_tight (h : Accepts (operand inner) ks left Q) :
    Accepts (exprWith inner BinaryOperator.signPower) ks left Q := by
  refine h.bind fun e he => .get fun _ _ => (operations_tight _ e).mono ?_
  rintro _ rfl
  exact he

/-- A sign and the token after it, two levels deep at least. -/
theorem exprAt_sign {sign : TokenKind}
    (h : ∀ d, Accepts (operand (nested (d + 1))) (sign :: k :: left) left Q) :
    Accepts (exprAt BinaryOperator.signPower) (sign :: k :: left) left Q := by
  refine .get fun s hs => ?_
  obtain ⟨d, hd⟩ : ∃ d, s.tokens.length + 1 = d + 2 :=
    ⟨left.length + 1, by rw [← s.length_kinds, hs]; rfl⟩
  rw [hd]
  exact exprWith_tight (h d)

theorem nested_literal {value : Literal} (hvalue : literalOf? k = some value) (d : Nat) :
    Accepts ((nested (d + 1)).expr BinaryOperator.signPower) (k :: left) left
      fun e => ∃ span, e = .constant { span := span } value :=
  exprWith_tight (operand_literal hvalue fun span => ⟨span, rfl⟩)

/-- A literal after a minus sign. -/
theorem exprAt_minus {value : Literal} (hvalue : literalOf? k = some value) :
    Accepts (exprAt BinaryOperator.signPower) (.minus :: k :: left) left
      fun e => ∃ span span', e = .unary { span := span } .negate (.constant { span := span' } value) := by
  refine exprAt_sign fun d => operand_minus (advance_accepts.bind fun sign _ =>
    (nested_literal hvalue d).bind ?_)
  rintro _ ⟨span, rfl⟩
  exact .pure ⟨_, span, rfl⟩

/-- A literal after a plus sign, which is not kept. -/
theorem exprAt_plus {value : Literal} (hvalue : literalOf? k = some value) :
    Accepts (exprAt BinaryOperator.signPower) (.plus :: k :: left) left
      fun e => ∃ span, e = .constant { span := span } value := by
  refine exprAt_sign fun d => (literal?_passes rfl).bind fun o ho => ?_
  subst ho
  refine .peek (advance_accepts.bind fun sign _ => (nested_literal hvalue d).bind ?_)
  rintro _ ⟨span, rfl⟩
  exact .pure ⟨_, rfl⟩

theorem operatorWords_accepts (op : BinaryOperator) :
    Accepts (operatorWords op.words.length) (op.words ++ left) left fun _ => True := by
  have hone (k : TokenKind) : Accepts (operatorWords 1) (k :: left) left fun _ => True :=
    advance_accepts.bind fun _ _ => .pure trivial
  have htwo (k k' : TokenKind) : Accepts (operatorWords 2) (k :: k' :: left) left fun _ => True :=
    advance_accepts.bind fun _ _ => advance_accepts.bind fun _ _ => .pure trivial
  cases op <;> first | exact hone _ | exact htwo _ _

/-- One operator between its operands, with nothing after them. -/
theorem exprWith_binary {op : BinaryOperator} {leftWords rightWords : List TokenKind}
    {L R : Expr → Prop} (hleft : (headKind left).endsExpr = true)
    (hl : Accepts (operand inner) (leftWords ++ (op.words ++ (rightWords ++ left)))
      (op.words ++ (rightWords ++ left)) L)
    (hr : Accepts (rightOperand inner op) (rightWords ++ left) left R) :
    Accepts (exprWith inner 0) (leftWords ++ (op.words ++ (rightWords ++ left))) left
      fun e => ∃ a b, e = a.binaryOf op b ∧ L a ∧ R b := by
  refine hl.bind fun a ha => .get fun _ _ => .peek (.peekAt ?_)
  rw [op.ofTokens?_words]
  refine (operatorWords_accepts op).bind fun _ _ => hr.bind fun b hb => ?_
  refine (operations_stop hleft _ _ _).mono ?_
  rintro _ rfl
  exact ⟨a, b, rfl, ha, hb⟩

end
end Parser

/-! ### What is read back of an expression -/

/-- The tokens of an expression are read as an expression that is kept. -/
structure Expr.RereadAlone (e : Expr) : Prop where
  begins : (headKind e.words).beginsExpr = true
  whole : ∀ d left, (e.words ++ left).length ≤ d → (headKind left).endsExpr = true →
    Parser.Accepts (Parser.exprWith (Parser.nested d) 0) (e.words ++ left) left e.Kept

/-- What is more, they are read so as an operand, as part of a path, and as members after
`IN`. -/
structure Expr.Reread (e : Expr) : Prop extends e.RereadAlone where
  notStar : ∀ left, headKind left ≠ .dot → startsTableStar (e.words ++ left) = false
  bare : e.skeleton.unwrapOne = e.skeleton
  /-- A path is read name by name, and what comes after it decides what it is part of. -/
  path : e.IsPath → Parser.isNameStart (headKind e.words) = true ∧
    ∀ inner ks left Q, headKind ks ≠ .leftParen →
      (∀ b n, b.IsPath → e.Kept b → ks.length < n → Parser.Accepts (Parser.dots n b) ks left Q) →
      Parser.Accepts (Parser.nameTerm inner) (e.words ++ ks) left Q
  operand : ∀ d left, (encloseIf e.isOperation e.words ++ left).length ≤ d →
    (headKind left).endsName = true →
    Parser.Accepts (Parser.operand (Parser.nested d)) (encloseIf e.isOperation e.words ++ left) left
      (e.KeptOperand id)
  members : headKind (encloseIf e.isOperation e.words) = .leftParen →
    ∀ d left, (encloseIf e.isOperation e.words ++ left).length ≤ d →
    Parser.Accepts (Parser.memberList (Parser.nested d)) (encloseIf e.isOperation e.words ++ left)
      left (e.KeptOperand unwrapOne)

namespace Expr.RereadAlone

variable {e : Expr} {left : List TokenKind} {d : Nat}

theorem words_ne_nil (h : e.RereadAlone) : e.words ≠ [] := by
  intro hnil
  have hbegins := h.begins
  rw [hnil] at hbegins
  cases hbegins

theorem head_append (h : e.RereadAlone) (left : List TokenKind) :
    headKind (e.words ++ left) = headKind e.words :=
  headKind_append h.words_ne_nil left

/-- The first token of an expression is none that no expression begins with. -/
theorem head_ne {k : TokenKind} (h : e.RereadAlone) (hk : k.beginsExpr = false) :
    headKind (e.words ++ left) ≠ k := by
  rw [h.head_append]
  rintro rfl
  rw [h.begins] at hk
  cases hk

theorem nested_expr (h : e.RereadAlone) (hd : (e.words ++ left).length < d)
    (hleft : (headKind left).endsExpr = true) :
    Parser.Accepts ((Parser.nested d).expr 0) (e.words ++ left) left e.Kept := by
  cases d with
  | zero => omega
  | succ d => exact h.whole d left (by omega) hleft

end Expr.RereadAlone

namespace Parser

variable {inner : Nested} {es : List Expr} {left : List TokenKind} {d : Nat}

/-- The tokens of a list begin with no token that neither an expression nor what stands
behind the list begins with. -/
theorem head_items_ne (h : ∀ e ∈ es, e.RereadAlone) {k : TokenKind} (hk : k.beginsExpr = false)
    (hleft : es = [] → headKind left ≠ k) :
    headKind (commaWords (es.map Expr.words) ++ left) ≠ k := by
  cases es with
  | nil => exact hleft rfl
  | cons e es =>
    rw [List.map_cons, commaWords, List.append_assoc]
    exact (h e List.mem_cons_self).head_ne hk

theorem exprs_accepts (hne : es ≠ []) (h : ∀ e ∈ es, e.RereadAlone)
    (hleft : (headKind left).endsExpr = true) (hleft' : headKind left ≠ .comma)
    (hd : (commaWords (es.map Expr.words) ++ left).length < d) :
    Accepts (commaSeparated ((nested d).expr 0)) (commaWords (es.map Expr.words) ++ left) left
      (List.Forall₂ Expr.Kept es) :=
  commaSeparated_accepts rfl hleft hleft' hne fun e he rest hrest hlength =>
    (h e he).nested_expr (by omega) hrest

/-- Things between brackets, of which there may be none. -/
theorem unlessClosing_accepts {α : Type} {p : Parser (List α)} {es : List Expr}
    (h : ∀ e ∈ es, e.RereadAlone) {R : Expr → α → Prop}
    (hp : es ≠ [] → Accepts p (commaWords (es.map Expr.words) ++ .rightParen :: left)
      (.rightParen :: left) (List.Forall₂ R es)) :
    Accepts (unlessClosing p) (commaWords (es.map Expr.words) ++ .rightParen :: left)
      (.rightParen :: left) (List.Forall₂ R es) := by
  by_cases hes : es = []
  · subst hes
    exact .check_head (.pure .nil)
  · exact .check_other (head_items_ne h rfl fun hnil => absurd hnil hes) (hp hes)

theorem list_kept {items items' : List Expr} (h : List.Forall₂ Expr.Kept items items')
    (span span' : Span) :
    Expr.Kept (.list { span := span } items) (.list { span := span' } items') := by
  obtain ⟨htexts, hbares⟩ := Kept.map h
  constructor
  · rw [Expr.render, Expr.render, renderExprs_eq, renderExprs_eq, htexts]
  · rw [Expr.skeleton, Expr.skeleton, skeletonExprs_eq, skeletonExprs_eq, hbares]
    rfl

/-- Several expressions in brackets. -/
theorem bracketTerm_list (hes : 2 ≤ es.length) (h : ∀ e ∈ es, e.RereadAlone)
    (hd : (enclosed (commaWords (es.map Expr.words)) ++ left).length ≤ d) :
    Accepts (bracketTerm (nested d)) (enclosed (commaWords (es.map Expr.words)) ++ left) left
      fun b => ∃ span items, b = .list { span := span } items ∧ List.Forall₂ Expr.Kept es items := by
  rw [enclosed_append, List.length_cons] at hd
  rw [enclosed_append]
  have hne : es ≠ [] := by
    rintro rfl
    simp at hes
  refine advance_accepts.bind fun opening _ =>
    .check_other (head_items_ne h rfl (by simp [headKind])) ?_
  refine (exprs_accepts hne h rfl (by simp [headKind]) (by omega)).bind fun items hitems =>
    (expect_accepts _).bind fun _ _ => (spanFrom_accepts _).bind fun span _ => ?_
  have hlength := hitems.length_eq
  rcases items with _ | ⟨item, _ | ⟨next, items⟩⟩
  · exact absurd (hlength ▸ hes) (by simp)
  · exact absurd (hlength ▸ hes) (by simp)
  · exact .pure ⟨span, _, rfl, hitems⟩

/-- One expression in brackets. -/
theorem bracketTerm_single {e : Expr} (h : e.RereadAlone) (hd : (enclosed e.words ++ left).length ≤ d) :
    Accepts (bracketTerm (nested d)) (enclosed e.words ++ left) left
      fun b => ∃ span inner, b = .brackets { span := span } inner ∧ e.Kept inner := by
  rw [enclosed_append, List.length_cons] at hd
  rw [enclosed_append]
  refine advance_accepts.bind fun opening _ => .check_other (h.head_ne rfl) ?_
  have hone : e.words = commaWords ([e].map Expr.words) := by simp [commaWords]
  rw [hone] at hd ⊢
  refine (exprs_accepts (List.cons_ne_nil e []) (by simpa using h) rfl (by simp [headKind]) (by omega)).bind
    fun items hitems => (expect_accepts _).bind fun _ _ => (spanFrom_accepts _).bind fun span _ => ?_
  cases hitems with
  | cons hinner hrest =>
    cases hrest
    exact .pure ⟨span, _, rfl, hinner⟩

/-- Any number of expressions in brackets after `IN`. -/
theorem memberList_list (h : ∀ e ∈ es, e.RereadAlone)
    (hd : (enclosed (commaWords (es.map Expr.words)) ++ left).length ≤ d) :
    Accepts (memberList (nested d)) (enclosed (commaWords (es.map Expr.words)) ++ left) left
      fun b => ∃ span items, b = .list { span := span } items ∧ List.Forall₂ Expr.Kept es items := by
  rw [enclosed_append, List.length_cons] at hd
  rw [enclosed_append]
  refine advance_accepts.bind fun opening _ =>
    .check_other (head_items_ne h rfl (by simp [headKind])) ?_
  refine (unlessClosing_accepts h fun hne => (columnsHint_accepts _).bind fun hint _ =>
    under_accepts _ (exprs_accepts hne h rfl (by simp [headKind]) (by omega))).bind
      fun items hitems => ?_
  exact (expect_accepts _).bind fun _ _ => (spanFrom_accepts _).bind fun span _ =>
    .pure ⟨span, items, rfl, hitems⟩

/-- The arguments of a call. -/
theorem call_accepts (h : ∀ e ∈ es, e.RereadAlone) (function : Ident)
    (hd : (enclosed (commaWords (es.map Expr.words)) ++ left).length ≤ d) :
    Accepts (call (nested d) function) (enclosed (commaWords (es.map Expr.words)) ++ left) left
      fun b => ∃ span args, b = .call { span := span } function args ∧
        List.Forall₂ Expr.Kept es args := by
  rw [enclosed_append, List.length_cons] at hd
  rw [enclosed_append]
  refine advance_accepts.bind fun opening _ =>
    .check_other (head_items_ne h rfl (by simp [headKind])) ?_
  refine (unlessClosing_accepts h fun hne => (columnsHint_accepts _).bind fun hint _ =>
    under_accepts _ (exprs_accepts hne h rfl (by simp [headKind]) (by omega))).bind
      fun args hargs => ?_
  exact (expect_accepts _).bind fun _ _ => (spanFrom_accepts _).bind fun span _ =>
    .pure ⟨span, args, rfl, hargs⟩

theorem callStar_accepts (function : Ident) :
    Accepts (call inner function) (enclosed [.star] ++ left) left
      fun b => ∃ span star, b = .callStar { span := span } function star :=
  advance_accepts.bind fun _ _ => .check_head (advance_accepts.bind fun star _ =>
    (expect_accepts _).bind fun _ _ => (spanFrom_accepts _).bind fun span _ =>
      .pure ⟨span, star.span, rfl⟩)

end Parser

/-! ### Queries inside expressions -/

/-- The tokens of a query are read as a query that is kept. -/
def Select.Reread (s : Select) : Prop :=
  ∀ d left, (s.words ++ left).length ≤ d →
    headKind left = .rightParen ∨ headKind left = .eof →
    Parser.Accepts (Parser.selectWith (Parser.nested d)) (s.words ++ left) left
      s.Kept

theorem Select.exists_words (s : Select) : ∃ ks, s.words = .keyword .SELECT :: ks :=
  ⟨_, by rw [Select.words_eq]; simp only [List.cons_append]; rfl⟩

namespace Parser

variable {s : Select} {left : List TokenKind} {d : Nat}

theorem nested_select (h : s.Reread) (hd : (s.words ++ left).length < d)
    (hleft : headKind left = .rightParen ∨ headKind left = .eof) :
    Accepts (nested d).select (s.words ++ left) left
      s.Kept := by
  cases d with
  | zero => omega
  | succ d => exact h d left (by omega) hleft

/-- A query after the bracket that opens it. -/
theorem closedSelect_accepts (h : s.Reread) (start : Span)
    (hd : (s.words ++ .rightParen :: left).length < d) :
    Accepts (do
      let select ← (nested d).select
      let _ ← expect .rightParen "')'"
      return Expr.subquery { span := ← spanFrom start } select) (s.words ++ .rightParen :: left) left
      fun b => ∃ span select, b = Expr.subquery { span := span } select ∧
        s.Kept select :=
  (nested_select h hd (.inl rfl)).bind fun select hselect => (expect_accepts _).bind fun _ _ =>
    (spanFrom_accepts _).bind fun span _ => .pure ⟨span, select, rfl, hselect⟩

theorem bracketTerm_subquery (h : s.Reread) (hd : (enclosed s.words ++ left).length ≤ d) :
    Accepts (bracketTerm (nested d)) (enclosed s.words ++ left) left
      fun b => ∃ span select, b = .subquery { span := span } select ∧
        s.Kept select := by
  rw [enclosed_append, List.length_cons] at hd
  rw [enclosed_append]
  have hclosed (start : Span) := closedSelect_accepts h start (show (s.words ++ .rightParen :: left).length < d by omega)
  obtain ⟨ks, hks⟩ := s.exists_words
  rw [hks, List.cons_append] at hclosed ⊢
  exact advance_accepts.bind fun opening _ => .check_head (hclosed opening.span)

theorem memberList_subquery (h : s.Reread) (hd : (enclosed s.words ++ left).length ≤ d) :
    Accepts (memberList (nested d)) (enclosed s.words ++ left) left
      fun b => ∃ span select, b = .subquery { span := span } select ∧
        s.Kept select := by
  rw [enclosed_append, List.length_cons] at hd
  rw [enclosed_append]
  have hclosed (start : Span) := closedSelect_accepts h start (show (s.words ++ .rightParen :: left).length < d by omega)
  obtain ⟨ks, hks⟩ := s.exists_words
  rw [hks, List.cons_append] at hclosed ⊢
  exact advance_accepts.bind fun opening _ => .check_head (hclosed opening.span)

end Parser

end SqlAnalysis

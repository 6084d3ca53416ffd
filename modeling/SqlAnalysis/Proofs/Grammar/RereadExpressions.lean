import SqlAnalysis.Proofs.Grammar.Rereading

/-!
# Expressions read back

The tokens of every kind of expression are read back if those of its parts are. An
operand that is an operation stands in brackets, so that operators are only ever read at
the outside: whatever their power is, the next token ends the operand.
-/
namespace SqlAnalysis

namespace Expr.Reread

variable {e e' : Expr} {left : List TokenKind} {d : Nat}

theorem render_list_one (note : Note) (e : Expr) :
    (Expr.list note [e]).render = "(" ++ e.render ++ ")" := rfl

/-- Only words, text, skeleton and shape matter. -/
theorem congr (h : e.Reread) (hwords : e'.words = e.words) (htext : e'.render = e.render)
    (hbare : e'.skeleton = e.skeleton) (hop : e'.isOperation = e.isOperation)
    (hpath : e'.IsPath → e.IsPath) : e'.Reread := by
  have hkept (b : Expr) : e'.Kept b ↔ e.Kept b :=
    ⟨fun hb => ⟨hb.text.trans htext, hb.bare.trans hbare⟩,
      fun hb => ⟨hb.text.trans htext.symm, hb.bare.trans hbare.symm⟩⟩
  have hoperand (view : Expr → Expr) (b : Expr) (hb : e.KeptOperand view b) :
      e'.KeptOperand view b :=
    ⟨by rw [hb.text, hop, htext], hb.closed, by rw [hb.bare, hbare]⟩
  refine { begins := ?_, whole := ?_, notStar := ?_, bare := ?_, path := ?_, operand := ?_, members := ?_ }
  · rw [hwords]
    exact h.begins
  · rw [hwords]
    exact fun d left hd hleft => (h.whole d left hd hleft).mono fun b => (hkept b).mpr
  · rw [hwords]
    exact h.notStar
  · rw [hbare]
    exact h.bare
  · intro hp
    rw [hwords]
    refine ⟨(h.path (hpath hp)).1, fun inner ks left Q hks hgoes => ?_⟩
    exact (h.path (hpath hp)).2 inner ks left Q hks fun b n hb hk => hgoes b n hb ((hkept b).mpr hk)
  · rw [hwords, hop]
    exact fun d left hd hleft => (h.operand d left hd hleft).mono (hoperand id)
  · rw [hwords, hop]
    exact fun hhead d left hd => (h.members hhead d left hd).mono (hoperand unwrapOne)

/-- An expression that needs no brackets as an operand. -/
theorem of_atom (hop : e.isOperation = false) (hbegins : (headKind e.words).beginsExpr = true)
    (hstar : ∀ left, headKind left ≠ .dot → startsTableStar (e.words ++ left) = false)
    (hbare : e.skeleton.unwrapOne = e.skeleton)
    (hpath : e.IsPath → Parser.isNameStart (headKind e.words) = true ∧
      ∀ inner ks left Q, headKind ks ≠ .leftParen →
        (∀ b n, b.IsPath → e.Kept b → ks.length < n →
          Parser.Accepts (Parser.dots n b) ks left Q) →
        Parser.Accepts (Parser.nameTerm inner) (e.words ++ ks) left Q)
    (hoperand : ∀ d left, (e.words ++ left).length ≤ d → (headKind left).endsName = true →
      Parser.Accepts (Parser.operand (Parser.nested d)) (e.words ++ left) left
        fun b => b.isOperation = false ∧ e.Kept b)
    (hmembers : headKind e.words = .leftParen → ∀ d left, (e.words ++ left).length ≤ d →
      Parser.Accepts (Parser.memberList (Parser.nested d)) (e.words ++ left) left
        (e.KeptOperand unwrapOne)) : e.Reread where
  begins := hbegins
  notStar := hstar
  bare := hbare
  path := hpath
  operand := by
    rw [hop]
    refine fun d left hd hleft => (hoperand d left hd hleft).mono fun b hb => ?_
    exact ⟨by rw [hop]; exact hb.2.text, hb.1, hb.2.bare⟩
  members := by
    rw [hop]
    exact hmembers
  whole d left hd hleft :=
    Parser.exprWith_operand hleft 0 ((hoperand d left hd (TokenKind.endsName_of_endsExpr hleft)).mono
      fun _ hb => hb.2)

/-- An operation, which stands in brackets as an operand. -/
theorem of_operation (hop : e.isOperation = true) (halone : e.RereadAlone)
    (hstar : ∀ left, headKind left ≠ .dot → startsTableStar (e.words ++ left) = false)
    (hbare : e.skeleton.unwrapOne = e.skeleton) : e.Reread where
  toRereadAlone := halone
  notStar := hstar
  bare := hbare
  path hpath := absurd hpath.isOperation (by simp [hop])
  operand := by
    rw [hop]
    intro d left hd _
    refine Parser.operand_bracket ((Parser.bracketTerm_single halone hd).mono ?_)
    rintro _ ⟨span, inner, rfl, hinner⟩
    exact ⟨by rw [hop, Expr.render, hinner.text]; rfl, rfl, hinner.bare⟩
  members := by
    rw [hop]
    intro _ d left hd
    have hone : encloseIf true e.words = enclosed (commaWords ([e].map Expr.words)) := by
      simp [encloseIf, commaWords]
    rw [hone] at hd ⊢
    refine (Parser.memberList_list (by simpa using halone) hd).mono ?_
    rintro _ ⟨span, items, rfl, hitems⟩
    cases hitems with
    | cons hinner hrest =>
      cases hrest
      refine ⟨by rw [render_list_one, hinner.text, hop]; rfl, rfl, ?_⟩
      rw [hbare]
      exact hinner.bare

/-! Operands as parts of operations -/

theorem encloseIf_ne_nil (h : e.Reread) : encloseIf e.isOperation e.words ≠ [] := by
  unfold encloseIf
  split
  · exact List.cons_ne_nil _ _
  · exact h.words_ne_nil

theorem begins_operand (h : e.Reread) (left : List TokenKind) :
    (headKind (encloseIf e.isOperation e.words ++ left)).beginsExpr = true := by
  rw [headKind_append h.encloseIf_ne_nil]
  unfold encloseIf
  split
  · rfl
  · exact h.begins

/-- Tokens that begin with no name are not taken for a table with a star. -/
theorem notStar_of_head {ks : List TokenKind} (h : Parser.isNameStart (headKind ks) = false) :
    startsTableStar ks = false := by
  simp [startsTableStar, h]

theorem notStar_operand (h : e.Reread) (hleft : headKind left ≠ .dot) :
    startsTableStar (encloseIf e.isOperation e.words ++ left) = false := by
  unfold encloseIf
  split
  · exact notStar_of_head rfl
  · exact h.notStar left hleft

theorem nested_operand (h : e.Reread) (hd : (encloseIf e.isOperation e.words ++ left).length < d)
    (hleft : (headKind left).endsExpr = true) (power : Nat) :
    Parser.Accepts ((Parser.nested d).expr power) (encloseIf e.isOperation e.words ++ left) left
      (e.KeptOperand id) := by
  cases d with
  | zero => omega
  | succ d =>
    exact Parser.exprWith_operand hleft power
      (h.operand d left (by omega) (TokenKind.endsName_of_endsExpr hleft))

theorem members_bracket {ks : List TokenKind} {power : Nat} {Q : Expr → Prop} {inner : Nested}
    (hhead : headKind ks = .leftParen) (h : Parser.Accepts (Parser.memberList inner) ks left Q) :
    Parser.Accepts (Parser.members inner power) ks left Q := by
  refine .check ?_
  rw [decide_eq_true hhead]
  exact h

theorem members_other {ks : List TokenKind} {power : Nat} {Q : Expr → Prop} {inner : Nested}
    (hhead : headKind ks ≠ .leftParen) (h : Parser.Accepts (inner.expr power) ks left Q) :
    Parser.Accepts (Parser.members inner power) ks left Q :=
  .check_other hhead h

/-- The right operand of an operator. After `IN`, what stands in brackets is read as a
list. -/
theorem rightOperand {op : BinaryOperator} (h : e.RightOf Expr.Reread op)
    (hd : (encloseIf e.isOperation e.words ++ left).length < d)
    (hleft : (headKind left).endsExpr = true) :
    Parser.Accepts (Parser.rightOperand (Parser.nested d) op)
      (encloseIf e.isOperation e.words ++ left) left (e.KeptOperand (unwrapMember op)) := by
  unfold Parser.rightOperand
  cases h with
  | expr h =>
    have halone : Parser.Accepts ((Parser.nested d).expr (op.power + 1))
        (encloseIf e.isOperation e.words ++ left) left (e.KeptOperand (unwrapMember op)) :=
      (h.nested_operand hd hleft _).mono fun b hb => ⟨hb.text, hb.closed, congrArg _ hb.bare⟩
    split
    · next hop =>
      have hhead := headKind_append h.encloseIf_ne_nil left
      by_cases hbracket : headKind (encloseIf e.isOperation e.words) = .leftParen
      · refine members_bracket (hhead.trans hbracket) ((h.members hbracket d left (by omega)).mono ?_)
        exact fun b hb => ⟨hb.text, hb.closed, by simpa [unwrapMember, hop] using hb.bare⟩
      · exact members_other (by rwa [hhead]) halone
    · exact halone
  | @members span items hop hitems =>
    rw [if_pos hop]
    refine members_bracket rfl ?_
    simp only [Expr.isOperation, Expr.words, encloseIf, Bool.false_eq_true, if_false,
      exprWords_eq] at hd ⊢
    refine (Parser.memberList_list (fun e he => (hitems e he).toRereadAlone) (by omega)).mono ?_
    rintro _ ⟨span', items', rfl, hitems'⟩
    have hkept := Parser.list_kept hitems' span span'
    exact ⟨hkept.text, rfl, congrArg _ hkept.bare⟩

/-! Atoms -/

theorem constant {span : Span} {value : Literal} (h : value.Plain) :
    (Expr.constant { span := span } value).Reread := by
  have hhead : headKind (Expr.constant { span := span } value).words = value.word := rfl
  have hname : Parser.isNameStart value.word = false := by
    cases value with
    | boolean b => cases b <;> rfl
    | _ => rfl
  refine of_atom rfl ?_ ?_ rfl (fun hpath => hpath.elim) ?_ ?_
  · simp [headKind, TokenKind.beginsExpr, h.literalOf?]
  · intro left _
    simp [Expr.words, startsTableStar, headKind, hname]
  · intro d left _ _
    exact Parser.operand_literal h.literalOf? fun _ => ⟨rfl, rfl, rfl⟩
  · intro hparen
    have hliteral := h.literalOf?
    rw [← hhead, hparen] at hliteral
    cases hliteral

/-- A path, on its own, ends where no point comes next. -/
theorem of_path (hpath : e.IsPath)
    (hstar : ∀ left, headKind left ≠ .dot → startsTableStar (e.words ++ left) = false)
    (hbare : e.skeleton.unwrapOne = e.skeleton)
    (hname : Parser.isNameStart (headKind e.words) = true)
    (hread : ∀ inner ks left Q, headKind ks ≠ .leftParen →
      (∀ b n, b.IsPath → e.Kept b → ks.length < n → Parser.Accepts (Parser.dots n b) ks left Q) →
      Parser.Accepts (Parser.nameTerm inner) (e.words ++ ks) left Q) : e.Reread := by
  have hends (left : List TokenKind) (hleft : (headKind left).endsName = true) :
      headKind left ≠ .dot ∧ headKind left ≠ .leftParen := by
    simpa [TokenKind.endsName] using hleft
  refine of_atom hpath.isOperation (TokenKind.beginsExpr_of_isNameStart hname) hstar hbare
    (fun _ => ⟨hname, hread⟩) ?_ ?_
  · intro d left _ hleft
    have hterm : Parser.Accepts (Parser.nameTerm (Parser.nested d)) (e.words ++ left) left
        fun b => b.isOperation = false ∧ e.Kept b := by
      refine hread _ left left _ (hends left hleft).2 fun b n hb hkept hn => ?_
      obtain ⟨n, rfl⟩ : ∃ m, n = m + 1 := ⟨n - 1, by omega⟩
      exact .eat_other (hends left hleft).1 (.pure ⟨hb.isOperation, hkept⟩)
    cases hwords : e.words with
    | nil =>
      rw [hwords] at hname
      cases hname
    | cons k ks =>
      rw [hwords] at hname hterm
      exact Parser.operand_name hname hterm
  · intro hparen
    rw [hparen] at hname
    cases hname

theorem isNameStart_word {ident : Ident} (h : ident.Plain) :
    Parser.isNameStart ident.word = true := by
  rw [Parser.isNameStart, show Parser.nameOf? ident.word = _ from h]
  rfl

theorem name {span : Span} {ident : Ident} (h : ident.Plain) :
    (Expr.name { span := span } ident).Reread := by
  refine of_path trivial ?_ rfl (isNameStart_word h) fun inner ks left Q hks hgoes => ?_
  · intro left hleft
    have hnext : ([ident.word] ++ left).getD 1 .eof ≠ .dot := by
      cases left <;> exact hleft
    rw [Expr.words, startsTableStar, beq_false_of_ne hnext]
    simp
  · refine (Parser.ident_accepts h).bind fun ident' hident => .check_other hks ?_
    refine .get fun s hs => hgoes _ _ trivial ⟨hident.text, ?_⟩ ?_
    · rw [Expr.skeleton, Expr.skeleton, hident.bare]
      rfl
    · have hlength : s.kinds.length = ks.length := congrArg List.length hs
      rw [s.length_kinds] at hlength
      omega

theorem three_le_length_words {note : Note} {right : Ident} (hpath : e.IsPath) :
    3 ≤ (Expr.dot note e right).words.length := by
  have hpos : 0 < e.words.length := by
    cases e <;> first | exact hpath.elim | simp [Expr.words]
  simp only [Expr.words, List.length_append, List.length_cons, List.length_nil]
  omega

/-- Three tokens are all that is looked at. -/
theorem startsTableStar_append {ks : List TokenKind} (h : 3 ≤ ks.length)
    (left left' : List TokenKind) :
    startsTableStar (ks ++ left) = startsTableStar (ks ++ left') := by
  match ks, h with
  | _ :: _ :: _ :: _, _ => rfl

theorem dot {span : Span} {right : Ident} (hpath : e.IsPath) (h : e.Reread)
    (hright : right.Plain) : (Expr.dot { span := span } e right).Reread := by
  have hwords (ks : List TokenKind) : (Expr.dot { span := span } e right).words ++ ks =
      e.words ++ .dot :: right.word :: ks := by
    simp [Expr.words]
  have hhead : headKind (Expr.dot { span := span } e right).words = headKind e.words :=
    h.head_append _
  refine of_path hpath ?_ rfl (hhead ▸ (h.path hpath).1) fun inner ks left Q hks hgoes => ?_
  · intro left _
    rw [hwords]
    cases e with
    | name _ ident =>
      have hstar : right.word ≠ .star := by
        intro hword
        have hname := isNameStart_word hright
        rw [hword] at hname
        cases hname
      rw [startsTableStar, show (_ : List TokenKind).getD 2 .eof = right.word from rfl,
        beq_false_of_ne hstar, Bool.and_false]
    | dot note base middle =>
      rw [startsTableStar_append (three_le_length_words hpath : 3 ≤ (base.dot note middle).words.length)
        _ []]
      exact h.notStar [] nofun
    | _ => exact hpath.elim
  · rw [hwords]
    refine (h.path hpath).2 inner _ left Q (by simp [headKind]) fun b n hb hkept hn => ?_
    obtain ⟨n, rfl⟩ : ∃ m, n = m + 1 := ⟨n - 1, by omega⟩
    refine .eat_head (Parser.hint_accepts.bind fun hint _ =>
      (Parser.under_accepts _ (Parser.ident_accepts hright)).bind fun name hname => ?_)
    refine hgoes _ n hb ⟨?_, ?_⟩ (by simp at hn; omega)
    · rw [Expr.render, Expr.render, hkept.text, hname.text]
    · rw [Expr.skeleton, Expr.skeleton, hkept.bare, hname.bare]
      rfl

/-- What begins with the name of a function and goes on with a bracket. -/
theorem of_call {function : Ident} {args : List TokenKind} (h : function.Plain)
    (hop : e.isOperation = false) (hpath : ¬ e.IsPath) (hbare : e.skeleton.unwrapOne = e.skeleton)
    (hwords : e.words = function.word :: enclosed args)
    (hcall : ∀ name d left, function.Kept name → (enclosed args ++ left).length ≤ d →
      Parser.Accepts (Parser.call (Parser.nested d) name) (enclosed args ++ left) left
        fun b => b.isOperation = false ∧ e.Kept b) : e.Reread := by
  have hname := isNameStart_word h
  refine of_atom hop ?_ ?_ hbare (fun hp => absurd hp hpath) ?_ ?_
  · rw [hwords]
    exact TokenKind.beginsExpr_of_isNameStart hname
  · intro left _
    rw [hwords, List.cons_append, enclosed_append]
    simp [startsTableStar]
  · intro d left hd _
    rw [hwords, List.cons_append, List.length_cons] at hd
    rw [hwords]
    refine Parser.operand_name hname ((Parser.ident_accepts h).bind fun name hkept => ?_)
    refine .check ?_
    exact hcall name d left hkept (by omega)
  · intro hparen
    rw [hwords] at hparen
    rw [show function.word = .leftParen from hparen] at hname
    cases hname

theorem call {span : Span} {function : Ident} {args : List Expr} (h : function.Plain)
    (hargs : ∀ e ∈ args, e.Reread) : (Expr.call { span := span } function args).Reread := by
  refine of_call h rfl id rfl rfl fun name d left hname hd => ?_
  rw [exprWords_eq] at hd ⊢
  refine (Parser.call_accepts (fun e he => (hargs e he).toRereadAlone) name hd).mono ?_
  rintro _ ⟨span', args', rfl, hargs'⟩
  obtain ⟨htexts, hbares⟩ := Kept.map hargs'
  refine ⟨rfl, ?_, ?_⟩
  · rw [Expr.render, Expr.render, renderExprs_eq, renderExprs_eq, htexts, hname.text]
  · rw [Expr.skeleton, Expr.skeleton, skeletonExprs_eq, skeletonExprs_eq, hbares, hname.bare]
    rfl

theorem callStar {span : Span} {function : Ident} {star : Span} (h : function.Plain) :
    (Expr.callStar { span := span } function star).Reread := by
  refine of_call h rfl id rfl rfl fun name d left hname _ => ?_
  refine (Parser.callStar_accepts name).mono ?_
  rintro _ ⟨span', star', rfl⟩
  refine ⟨rfl, ?_, ?_⟩
  · rw [Expr.render, Expr.render, hname.text]
  · rw [Expr.skeleton, Expr.skeleton, hname.bare]
    rfl

/-- What stands in brackets of its own. -/
theorem of_brackets {words : List TokenKind} (hop : e.isOperation = false) (hpath : ¬ e.IsPath)
    (hbare : e.skeleton.unwrapOne = e.skeleton) (hwords : e.words = enclosed words)
    (hterm : ∀ d left, (enclosed words ++ left).length ≤ d →
      Parser.Accepts (Parser.bracketTerm (Parser.nested d)) (enclosed words ++ left) left
        fun b => b.isOperation = false ∧ e.Kept b)
    (hmembers : ∀ d left, (enclosed words ++ left).length ≤ d →
      Parser.Accepts (Parser.memberList (Parser.nested d)) (enclosed words ++ left) left
        (e.KeptOperand unwrapOne)) : e.Reread := by
  refine of_atom hop ?_ ?_ hbare (fun hp => absurd hp hpath) ?_ ?_
  · rw [hwords]
    rfl
  · intro left _
    rw [hwords]
    exact notStar_of_head rfl
  · intro d left hd _
    rw [hwords] at hd ⊢
    exact Parser.operand_bracket (hterm d left hd)
  · intro _ d left hd
    rw [hwords] at hd ⊢
    exact hmembers d left hd

theorem brackets {span : Span} {inner : Expr} (h : inner.Reread) :
    (Expr.brackets { span := span } inner).Reread := by
  refine of_brackets rfl id h.bare rfl (fun d left hd => ?_) fun d left hd => ?_
  · refine (Parser.bracketTerm_single h.toRereadAlone hd).mono ?_
    rintro _ ⟨span', inner', rfl, hinner⟩
    exact ⟨rfl, by rw [Expr.render, Expr.render, hinner.text], hinner.bare⟩
  · have hone : inner.words = commaWords ([inner].map Expr.words) := by simp [commaWords]
    rw [hone] at hd ⊢
    refine (Parser.memberList_list (by simpa using h.toRereadAlone) hd).mono ?_
    rintro _ ⟨span', items, rfl, hitems⟩
    cases hitems with
    | cons hinner hrest =>
      cases hrest
      exact ⟨by rw [render_list_one, hinner.text]; rfl, rfl, hinner.bare.trans h.bare.symm⟩

theorem list {span : Span} {items : List Expr} (hitems : 2 ≤ items.length)
    (h : ∀ e ∈ items, e.Reread) : (Expr.list { span := span } items).Reread := by
  have halone := fun e he => (h e he).toRereadAlone
  refine of_brackets rfl id ?_ rfl (fun d left hd => ?_) fun d left hd => ?_
  · match items, hitems with
    | _ :: _ :: _, _ => rfl
  · rw [exprWords_eq] at hd ⊢
    refine (Parser.bracketTerm_list hitems halone hd).mono ?_
    rintro _ ⟨span', items', rfl, hitems'⟩
    exact ⟨rfl, Parser.list_kept hitems' span span'⟩
  · rw [exprWords_eq] at hd ⊢
    refine (Parser.memberList_list halone hd).mono ?_
    rintro _ ⟨span', items', rfl, hitems'⟩
    have hkept := Parser.list_kept hitems' span span'
    exact ⟨hkept.text, rfl, congrArg _ hkept.bare⟩

theorem subquery {span : Span} {select : Select} (h : select.Reread) :
    (Expr.subquery { span := span } select).Reread := by
  have hkept {span' : Span} {select' : Select}
      (hselect : select.Kept select') :
      Expr.Kept (.subquery { span := span } select) (.subquery { span := span' } select') :=
    ⟨by rw [Expr.render, Expr.render, hselect.text],
      by rw [Expr.skeleton, Expr.skeleton, hselect.bare]; rfl⟩
  refine of_brackets rfl id rfl rfl (fun d left hd => ?_) fun d left hd => ?_
  · refine (Parser.bracketTerm_subquery h hd).mono ?_
    rintro _ ⟨span', select', rfl, hselect⟩
    exact ⟨rfl, hkept hselect⟩
  · refine (Parser.memberList_subquery h hd).mono ?_
    rintro _ ⟨span', select', rfl, hselect⟩
    exact ⟨(hkept hselect).text, rfl, congrArg _ (hkept hselect).bare⟩

/-! Operations -/

theorem binary {span : Span} {l r : Expr} {op : BinaryOperator} (hl : l.Reread)
    (hr : r.RightOf Expr.Reread op) : (Expr.binary { span := span } l op r).Reread := by
  have hwords (left : List TokenKind) : (Expr.binary { span := span } l op r).words ++ left =
      encloseIf l.isOperation l.words ++ (op.words ++ (encloseIf r.isOperation r.words ++ left)) := by
    simp [Expr.words]
  refine of_operation rfl ⟨?_, fun d left hd hleft => ?_⟩ (fun left _ => ?_) rfl
  · have hbegins := hl.begins_operand (op.words ++ (encloseIf r.isOperation r.words ++ []))
    rwa [← hwords, List.append_nil] at hbegins
  · rw [hwords] at hd ⊢
    have hlength : (encloseIf r.isOperation r.words ++ left).length < d := by
      have hpos := op.length_words_pos
      rw [List.length_append, List.length_append] at hd
      omega
    have hright := rightOperand hr hlength hleft
    refine (Parser.exprWith_binary hleft (hl.operand d _ hd (op.words_endsName _)) hright).mono ?_
    rintro _ ⟨a, b, rfl, ha, hb⟩
    refine ⟨?_, ?_⟩
    · rw [Expr.binaryOf, Expr.render, Expr.render, ha.render, hb.render]
    · rw [Expr.binaryOf, Expr.skeleton, Expr.skeleton, show a.skeleton = l.skeleton from ha.bare, hb.bare]
      rfl
  · rw [hwords]
    refine hl.notStar_operand fun hdot => ?_
    have hends := op.words_endsName (encloseIf r.isOperation r.words ++ left)
    rw [hdot] at hends
    cases hends

theorem unary {span : Span} {op : UnaryOperator} {operand : Expr} (h : operand.Reread) :
    (Expr.unary { span := span } op operand).Reread := by
  have hkept {span' : Span} {operand' : Expr} (hoperand : operand.KeptOperand id operand') :
      Expr.Kept (.unary { span := span } op operand) (.unary { span := span' } op operand') := by
    constructor
    · cases op <;> rw [Expr.render, Expr.render, hoperand.render]
    · rw [Expr.skeleton, Expr.skeleton, show operand'.skeleton = operand.skeleton from hoperand.bare]
      rfl
  refine of_operation rfl ⟨?_, fun d left hd hleft => ?_⟩ (fun left _ => ?_) rfl
  · cases op <;> rfl
  · rw [Expr.words, List.cons_append, List.length_cons] at hd
    have hinner (power : Nat) := h.nested_operand hd hleft power
    refine Parser.exprWith_operand hleft 0 ?_
    cases op with
    | negate =>
      exact Parser.operand_minus (Parser.advance_accepts.bind fun _ _ =>
        (hinner _).bind fun _ hoperand => .pure (hkept hoperand))
    | not =>
      exact Parser.operand_not (Parser.advance_accepts.bind fun _ _ =>
        (hinner _).bind fun _ hoperand => .pure (hkept hoperand))
  · cases op <;> exact notStar_of_head rfl

/-- A plus sign leaves no trace in the text. -/
theorem plus {span : Span} (h : e.Reread) : (e.withNote { e.note with span := span }).Reread :=
  h.congr (words_withNote _ e) (render_withNote _ e) (skeleton_withSpan span e)
    (isOperation_withNote _ e) (isPath_withNote _ e).mp

end Expr.Reread

end SqlAnalysis

import SqlAnalysis.Proofs.Grammar.Cutting

/-!
# Expressions and queries on an excerpt

An expression or a query that ends with an excerpt is read from the excerpt alone as from
the whole, whatever stands behind. The parsers for what is inside are bounded in one run
only: the depth of nesting makes the induction.
-/
namespace SqlAnalysis

namespace Parser

open ParserState

variable {α β : Type} {n : Nat} {behind : List Token} {c : Prop} {kind : TokenKind}
  {move : α → α} {move' : β → β}

/-! ### Repetition -/

section

variable {p p' : Parser α}

theorem eat_cuts (hk : kind.endsStatement = false) (hdot : kind ≠ .dot) :
    Cuts n behind c id (eat kind) (eat kind) := by
  have hself : eat kind = eat kind >>= fun b => if b then pure true else pure false := by
    conv_lhs => rw [← bind_pure (eat kind)]
    congr 1
    funext b
    cases b <;> rfl
  rw [hself]
  exact .ifEat hk hdot (.pure fun _ => rfl) (.pure fun _ => rfl)

theorem eatWord_cuts (word : Keyword) : Cuts n behind c id (eatWord word) (eatWord word) :=
  eat_cuts rfl nofun

theorem manyUpTo_cuts {p p' : Parser (Option α)} (hp : Cuts n behind c (Option.map move) p p')
    (rounds : Nat) :
    Cuts n behind c (List.map move) (manyUpTo p rounds) (manyUpTo p' rounds) := by
  induction rounds with
  | zero => exact .pure fun _ => rfl
  | succ rounds ih =>
    refine .bindOption hp (.pure fun _ => rfl) fun a a' => ?_
    refine .bind (ih.weaken And.left) fun as as' => .pure fun hc => ?_
    simp [hc]

theorem many_cuts {p p' : Parser (Option α)} (hp : Cuts n behind c (Option.map move) p p')
    (hconsumes : ConsumesForSome p') :
    Cuts n behind c (List.map move) (many p) (many p') :=
  .rounds (manyUpTo_cuts hp) fun m m' s' hfinal hm hle =>
    manyUpTo_rounds hconsumes m m' s' hfinal hm (Nat.lt_of_lt_of_le hm hle)

theorem after_cuts (kind : TokenKind) (hk : kind.endsStatement = false) (hdot : kind ≠ .dot)
    (hp : Cuts n behind c move p p') :
    Cuts n behind c (Option.map move) (after kind p) (after kind p') :=
  .ifEat hk hdot (.bind hp fun a a' => .pure fun hc => by simp [hc]) (.pure fun _ => rfl)

theorem afterWord_cuts (word : Keyword) (hp : Cuts n behind c move p p') :
    Cuts n behind c (Option.map move) (afterWord word p) (afterWord word p') :=
  after_cuts _ rfl nofun hp

theorem commaSeparated_cuts (hp : Cuts n behind c move p p') (hforward : Composed Forward p') :
    Cuts n behind c (List.map move) (commaSeparated p) (commaSeparated p') := by
  refine .bind hp fun a a' => ?_
  have hrest := many_cuts (after_cuts .comma rfl nofun hp)
    (IsRepeated.item hforward.forward).consumes
  exact .bind (hrest.weaken And.left) fun as as' => .pure fun hc => by simp [hc]

theorem atWord_cuts {word : Keyword} (hp : CutsAt n behind (.keyword word) c move p p') :
    Cuts n behind c (Option.map move) (atWord word p) (atWord word p') :=
  .ifCheck nofun (.bind hp fun a a' => .pure fun hc => by simp [hc]) (.pure fun _ => rfl)

theorem expect_consumes {what : String} {f : Token → Parser β} (hk : kind.endsStatement = false)
    (hf : ∀ t, Closes (f t)) : Consumes (expect kind what >>= f) :=
  fun _ => .expect hk fun t u _ _ => (hf t u).mono fun _ _ _ => List.cons_ne_nil _ _

/-- A list up to the bracket that closes it. -/
theorem listed_cuts {p p' : Parser (List α)} {f f' : List α → Parser β}
    (hp : Cuts n behind c (List.map move) p p')
    (hf : ∀ as as', Cuts n behind (c ∧ as = as'.map move) move' (f as) (f' as')) :
    Cuts n behind c move' (unlessClosing p >>= fun as => expect .rightParen "')'" >>= fun _ => f as)
      (unlessClosing p' >>= fun as => expect .rightParen "')'" >>= fun _ => f' as) := by
  have hsplit : ∀ (p : Parser (List α)) (f : List α → Parser β),
      (unlessClosing p >>= fun as => expect .rightParen "')'" >>= fun _ => f as) =
        (check .rightParen >>= fun b => if b then expect .rightParen "')'" >>= fun _ => f []
          else p >>= fun as => expect .rightParen "')'" >>= fun _ => f as) := by
    intro p f
    rw [unlessClosing, bind_assoc]
    congr 1
    funext b
    cases b <;> rfl
  have hempty : Cuts n behind c move' (expect .rightParen "')'" >>= fun _ => f [])
      (expect .rightParen "')'" >>= fun _ => f' []) :=
    .expect rfl nofun fun _ _ => (hf [] []).weaken fun hc => ⟨hc.1, rfl⟩
  rw [hsplit, hsplit]
  refine .ifCheck nofun (hempty.at_kind (expect_consumes rfl fun _ => (hf [] []).closes)) ?_
  exact .bind hp fun as as' => .expect rfl nofun fun _ _ => (hf as as').weaken And.left

end

/-! ### Names -/

theorem endsStatement_of_nameOf? {name : String × Bool} (h : nameOf? kind = some name) :
    kind.endsStatement = false := by
  cases kind with
  | eof | semicolon => cases h
  | _ => rfl

theorem ident_cuts : Cuts n behind c (Ident.shift n) ident ident := by
  refine .current fun t t' hkind => ?_
  rw [← hkind]
  split
  · next name quoted hname =>
    refine .advance (endsStatement_of_nameOf? hname) (fun hdot => ?_) fun _ _ => .pure fun hc => ?_
    · rw [hdot] at hname
      cases hname
    · simp [Ident.shift, hc.1.2.span]
  · exact .failExpected _

theorem identList_cuts :
    Cuts n behind c (List.map (Ident.shift n)) identList identList :=
  .expect rfl nofun fun _ _ => .bind (commaSeparated_cuts ident_cuts ident_composed) fun _ _ =>
    .expect rfl nofun fun _ _ => .pure fun hc => hc.1.2

/-- A name of which the first token has been seen. -/
theorem someIdent_cuts : CutsAt n behind kind c (Option.map (Ident.shift n))
    (do return some (← ident)) (do return some (← ident)) :=
  .bind (ident_cuts.at_kind ident_consumes) fun name name' => .pure fun hc => by simp [hc]

theorem alias?_cuts : Cuts n behind c (Option.map (Ident.shift n)) alias? alias? := by
  refine .ifEat rfl nofun (.bind ident_cuts fun name name' => .pure fun hc => by simp [hc]) ?_
  refine .peekOr rfl (fun _ => rfl) fun k => ?_
  split
  · exact .inl someIdent_cuts
  · exact .inr ⟨rfl, rfl⟩

end Parser

/-- Whether the parsers for what is inside are cut like those with no bound on the nesting,
and read a token. -/
structure Nested.Cuts (n : Nat) (behind : List Token) (inner : Nested) : Prop where
  expr : ∀ {c : Prop} (power : Nat),
    Parser.Cuts n behind c (Expr.shift n) (inner.expr power) (Parser.whole.expr power)
  select : ∀ {c : Prop}, Parser.Cuts n behind c (Select.shift n) inner.select Parser.whole.select
  fills : inner.Fills

namespace Nested.Fills

variable {inner : Nested}

theorem select_consumes (h : inner.Fills) : Parser.Consumes inner.select :=
  fun s => (h.select s).mono fun _ _ hs => Outline.Fills.ne_nil hs

end Nested.Fills

namespace Parser

open ParserState

variable {α β : Type} {n : Nat} {behind : List Token} {c : Prop} {kind : TokenKind}
  {move : α → α} {move' : β → β} {inner : Nested}

/-! ### Expressions -/

theorem literal?_cuts : Cuts n behind c (Option.map (Expr.shift n)) literal? literal? := by
  refine .peekOr rfl (fun _ => rfl) fun k => ?_
  split
  · next value hvalue =>
    refine .inl (.advance (endsStatement_of_literalOf? hvalue) (fun hdot => ?_) fun t t' => ?_)
    · rw [hdot] at hvalue
      cases hvalue
    · exact .pure fun hc => by simp [Expr.shift, Note.shift, hc.2.span]
  · exact .inr ⟨rfl, rfl⟩

theorem exprs_cuts (hin : inner.Cuts n behind) :
    Cuts n behind c (List.map (Expr.shift n)) (commaSeparated (inner.expr 0))
      (commaSeparated (whole.expr 0)) :=
  commaSeparated_cuts (hin.expr 0) (whole_composed.expr 0)

/-- A query between brackets, of which the first is read. -/
theorem closedSelect_cuts (hin : inner.Cuts n behind) {opening opening' : Span}
    (hopening : c → opening = opening'.shift n) :
    CutsAt n behind kind c (Expr.shift n)
      (do
        let select ← inner.select
        let _ ← expect .rightParen "')'"
        return Expr.subquery { span := ← spanFrom opening } select)
      (do
        let select ← whole.select
        let _ ← expect .rightParen "')'"
        return Expr.subquery { span := ← spanFrom opening' } select) :=
  .bind (hin.select.at_kind hin.fills.select_consumes) fun select select' =>
    .expect rfl nofun fun _ _ => .spanFrom (fun hc => hopening hc.1.1) fun span span' =>
      .pure fun hc => by simp [Expr.shift, Note.shift, hc]

theorem bracketTerm_cuts (hin : inner.Cuts n behind) :
    CutsAt n behind .leftParen c (Expr.shift n) (bracketTerm inner) (bracketTerm whole) := by
  refine .advance rfl nofun fun opening opening' => .ifCheck nofun ?_ ?_
  · exact closedSelect_cuts hin fun hc => hc.2.span
  · refine .bind (exprs_cuts hin) fun items items' => .expect rfl nofun fun _ _ =>
      .spanFrom (fun hc => hc.1.1.2.span) fun span span' => ?_
    refine .assuming (fun s => ?_) fun hc => ?_
    · split <;> exact .pure .nil
    · obtain ⟨⟨⟨-, rfl⟩, -⟩, rfl⟩ := hc
      match items' with
      | [] => exact .pure fun _ => rfl
      | [item] => exact .pure fun _ => rfl
      | first :: second :: rest =>
        exact .pure fun _ => by simp [Expr.shift, Note.shift, shiftExprs_eq]

theorem call_cuts (hin : inner.Cuts n behind) {function function' : Ident}
    (hfunction : c → function = function'.shift n) :
    CutsAt n behind .leftParen c (Expr.shift n) (call inner function) (call whole function') := by
  have hspan : c → function.span = function'.span.shift n := fun hc => by
    rw [hfunction hc, Ident.shift]
  refine .advance rfl nofun fun _ _ => .ifCheck nofun ?_ ?_
  · refine .advance rfl nofun fun star star' => .expect rfl nofun fun _ _ =>
      .spanFrom (fun hc => hspan hc.1.1.1) fun span span' => .pure fun hc => ?_
    simp [Expr.shift, Note.shift, hc, hfunction hc.1.1.1.1, hc.1.1.2.span]
  · have hargs : ∀ {c}, Cuts n behind c (List.map (Expr.shift n))
        (do under (← columnsHint []) (commaSeparated (inner.expr 0)))
        (do under (← columnsHint []) (commaSeparated (whole.expr 0))) :=
      .look (columnsHint_looks _) (columnsHint_looks _) fun _ _ => (exprs_cuts hin).under _ _
    refine listed_cuts hargs fun args args' => .spanFrom (fun hc => hspan hc.1.1)
      fun span span' => .pure fun hc => ?_
    simp [Expr.shift, Note.shift, shiftExprs_eq, hc, hfunction hc.1.1.1]

theorem dots_cuts (rounds : Nat) : ∀ {c : Prop} {e e' : Expr}, (c → e = e'.shift n) →
    Cuts n behind c (Expr.shift n) (dots rounds e) (dots rounds e') := by
  induction rounds with
  | zero => exact fun he => .pure he
  | succ rounds ih =>
    intro c e e' he
    have hright : Cuts n behind c (Expr.shift n)
        (do
          let h ← hint
          let right ← under { h with columns := suggestionAfter e } ident
          dots rounds (.dot { span := e.span.merge right.span } e right))
        (do
          let h ← hint
          let right ← under { h with columns := suggestionAfter e' } ident
          dots rounds (.dot { span := e'.span.merge right.span } e' right)) :=
      .look hint_looks hint_looks fun _ _ => .bind (ident_cuts.under _ _) fun right right' =>
        ih fun hc => by
          simp [Expr.shift, Note.shift, Span.shift_merge, he hc.1, hc.2, Ident.shift]
    rw [dots, dots, ifEat_bind, ifEat_bind]
    refine .ifCheck nofun (.advanceInto rfl ?_ hright) (.pure he)
    exact fun s => .look _ rfl ((Reads.under (ident_reads _)).bind fun _ read u _ hname =>
      ((dots_composed _ _).forward.reads u).mono fun _ _ _ => by simp [hname.fills.ne_nil])

theorem nameTerm_cuts (hin : inner.Cuts n behind) :
    CutsAt n behind kind c (Expr.shift n) (nameTerm inner) (nameTerm whole) := by
  refine .bind (ident_cuts.at_kind ident_consumes) fun name name' => ?_
  refine .ifCheck nofun (call_cuts hin And.right) ?_
  refine .rounds (fun m => dots_cuts m fun hc => ?_) fun m m' s _ hm hle =>
    dots_rounds m m' hle _ s hm
  simp [Expr.shift, Note.shift, hc.2, Ident.shift]

theorem minusTerm_cuts (hin : inner.Cuts n behind) :
    CutsAt n behind .minus c (Expr.shift n) (minusTerm inner) (minusTerm whole) :=
  .advance rfl nofun fun sign sign' => .bind (hin.expr _) fun e e' => .pure fun hc => by
    simp [Expr.shift, Note.shift, Span.shift_merge, hc.1.2.span, hc.2]

theorem plusTerm_cuts (hin : inner.Cuts n behind) :
    CutsAt n behind .plus c (Expr.shift n) (plusTerm inner) (plusTerm whole) :=
  .advance rfl nofun fun sign sign' => .bind (hin.expr _) fun e e' => .pure fun hc => by
    simp [Expr.shift_withNote, Note.shift, Span.shift_merge, hc.1.2.span, hc.2]

theorem notTerm_cuts (hin : inner.Cuts n behind) :
    CutsAt n behind (.keyword .NOT) c (Expr.shift n) (notTerm inner) (notTerm whole) :=
  .advance rfl nofun fun sign sign' => .bind (hin.expr _) fun e e' => .pure fun hc => by
    simp [Expr.shift, Note.shift, Span.shift_merge, hc.1.2.span, hc.2]

theorem operand_cuts (hin : inner.Cuts n behind) :
    Cuts n behind c (Expr.shift n) (operand inner) (operand whole) := by
  refine .bindOption literal?_cuts (.peek fun k => ?_) fun e e' => .pure And.right
  split
  · exact minusTerm_cuts hin
  · exact plusTerm_cuts hin
  · exact notTerm_cuts hin
  · exact bracketTerm_cuts hin
  · exact .ite (fun _ => nameTerm_cuts hin) fun _ => .failExpected _

theorem memberList_cuts (hin : inner.Cuts n behind) :
    CutsAt n behind .leftParen c (Expr.shift n) (memberList inner) (memberList whole) := by
  refine .advance rfl nofun fun opening opening' => .ifCheck nofun ?_ ?_
  · exact closedSelect_cuts hin fun hc => hc.2.span
  · have hitems : ∀ {c}, Cuts n behind c (List.map (Expr.shift n))
        (do
          let h ← columnsHint []
          under { h with wrap := some ("(", ")") } (commaSeparated (inner.expr 0)))
        (do
          let h ← columnsHint []
          under { h with wrap := some ("(", ")") } (commaSeparated (whole.expr 0))) :=
      .look (columnsHint_looks _) (columnsHint_looks _) fun _ _ => (exprs_cuts hin).under _ _
    refine listed_cuts hitems fun items items' => .spanFrom (fun hc => hc.1.2.span)
      fun span span' => .pure fun hc => ?_
    simp [Expr.shift, Note.shift, shiftExprs_eq, hc]

theorem rightOperand_cuts (hin : inner.Cuts n behind) (op : BinaryOperator) :
    Cuts n behind c (Expr.shift n) (rightOperand inner op) (rightOperand whole op) :=
  .ite (.ifCheck nofun (memberList_cuts hin) (hin.expr _)) (hin.expr _)

/-! ### Operators -/

/-- With less to see ahead no other operator is found. -/
theorem ofTokens?_cut {first second first' second' : TokenKind}
    (h : first' = first ∨ first' = .eof) (h' : second' = second ∨ second' = .eof) :
    BinaryOperator.ofTokens? first' second' = BinaryOperator.ofTokens? first second ∨
      BinaryOperator.ofTokens? first' second' = none := by
  rcases h with rfl | rfl
  · rcases h' with rfl | rfl
    · exact .inl rfl
    · cases hop : BinaryOperator.ofTokens? first' .eof with
      | none => exact .inr rfl
      | some op =>
        refine .inl ?_
        unfold BinaryOperator.ofTokens? at hop ⊢
        split at hop <;> simp_all
  · exact .inr rfl

theorem ofTokens?_single {first second : TokenKind} {op : BinaryOperator}
    (h : BinaryOperator.ofTokens? first second = some (op, 1)) (second' : TokenKind) :
    BinaryOperator.ofTokens? first second' = some (op, 1) := by
  unfold BinaryOperator.ofTokens? at h ⊢
  split at h <;> simp_all

theorem operatorWords_run (width : Nat) (s : ParserState) :
    (operatorWords width).run s = (.ok (), if width = 2 then s.advance.advance else s.advance) := by
  have hadvance : ∀ s, advance.run s = (.ok s.current, s.advance) := fun _ => rfl
  rw [operatorWords, run_bind, hadvance]
  by_cases hwidth : width = 2
  · rw [if_pos hwidth, if_pos hwidth]
    rfl
  · rw [if_neg hwidth, if_neg hwidth]
    rfl

theorem operatorWords_finished {s : ParserState} {op : BinaryOperator} {width : Nat}
    (hnext : BinaryOperator.ofTokens? (s.kindAt 0) (s.kindAt 1) = some (op, width)) :
    Reads (operatorWords width) s fun _ read => read.length = width ∧ Finished read := by
  refine Reads.mono (.of_agree fun h => operatorWords_agree h hnext) fun _ read hwords => ?_
  have hpoint : ∀ op : BinaryOperator, .dot ∉ op.words := by
    intro op
    cases op <;> simp [BinaryOperator.words]
  refine ⟨?_, fun t ht hdot => hpoint op ?_⟩
  · rw [← List.length_map, hwords]
    rcases (BinaryOperator.ofTokens?_eq_some hnext).2 with ⟨rfl, h⟩ | ⟨rfl, h, -⟩ <;> rw [h] <;> rfl
  · rw [← hwords, ← hdot]
    exact List.mem_map_of_mem (List.mem_of_mem_getLast? ht)

theorem operatorWords_cut {s s' u : ParserState} (hcut : Cut n behind s s') {op : BinaryOperator}
    {width : Nat}
    (hnext : BinaryOperator.ofTokens? (s.kindAt 0) (s.kindAt 1) = some (op, width))
    (hrun : (operatorWords width).run s = (.ok (), u)) (hlen : behind.length ≤ u.tokens.length) :
    BinaryOperator.ofTokens? (s'.kindAt 0) (s'.kindAt 1) = some (op, width) ∧
      ∃ u', (operatorWords width).run s' = (.ok (), u') ∧ Cut n behind u u' := by
  obtain ⟨read, hu, hread, -⟩ := operatorWords_finished hnext hcut.final _ u hrun
  have hlength := hcut.length_eq
  have hlength' := hu.length_eq
  rw [operatorWords_run] at hrun ⊢
  obtain rfl := (Prod.mk.inj hrun).2
  rcases (BinaryOperator.ofTokens?_eq_some hnext).2 with ⟨rfl, -⟩ | ⟨rfl, -, -⟩
  · have hne : s'.tokens ≠ [] := List.length_pos_iff.mp (by omega)
    rw [hcut.kindAt_eq (by omega)]
    exact ⟨ofTokens?_single hnext _, _, rfl, (hcut.advance hne).2⟩
  · rw [hcut.kindAt_eq (by omega), hcut.kindAt_eq (by omega)]
    exact ⟨hnext, _, rfl, hcut.advanceTwice (by omega)⟩

/-- An operator that binds strongly enough with what follows it, or else nothing. -/
def operator (power : Nat) (b : β) (f : BinaryOperator → Parser β) : Parser β := do
  match BinaryOperator.ofTokens? (← peek) (← peekAt 1) with
  | none => return b
  | some (op, width) =>
    if op.power < power then
      return b
    else
      operatorWords width
      f op

theorem operator_run (power : Nat) (b : β) (f : BinaryOperator → Parser β) (s : ParserState) :
    (operator power b f).run s =
      match BinaryOperator.ofTokens? (s.kindAt 0) (s.kindAt 1) with
      | none => (.ok b, s)
      | some (op, width) =>
        if op.power < power then (.ok b, s) else (operatorWords width >>= fun _ => f op).run s := by
  have hpeek : peek.run s = (.ok (s.kindAt 0), s) := rfl
  have hpeek1 : (peekAt 1).run s = (.ok (s.kindAt 1), s) := rfl
  rw [operator, run_bind, hpeek]
  dsimp only
  rw [run_bind, hpeek1]
  dsimp only
  split
  · rfl
  · split <;> rfl

theorem operator_closes {power : Nat} {b : β} {f : BinaryOperator → Parser β}
    (hf : ∀ op, Closes (f op)) : Closes (operator power b f) := by
  intro s hfinal d v hrun
  rw [operator_run] at hrun
  split at hrun
  · exact Closes.pure b s hfinal d v hrun
  · next op width hnext =>
    split at hrun
    · exact Closes.pure b s hfinal d v hrun
    · have hread : Reads (operatorWords width >>= fun _ => f op) s fun _ read => Finished read :=
        (operatorWords_finished hnext).bind fun _ _ u _ hwords =>
          (hf op u).mono fun _ _ => hwords.2.append
      exact hread hfinal d v hrun

theorem operator_cuts {power : Nat} {b b' : β} {f f' : BinaryOperator → Parser β}
    (hb : c → b = move' b') (hf : ∀ op, Cuts n behind c move' (f op) (f' op)) :
    Cuts n behind c move' (operator power b f) (operator power b' f') where
  closes := operator_closes fun op => (hf op).closes
  run hc s s' d v hcut hrun hlen := by
    have hidle : ∀ {d v}, (.ok b, s) = ((.ok d, v) : Except Diagnostic β × ParserState) →
        d = move' b' ∧ Cut n behind v s' := by
      rintro _ _ ⟨⟩
      exact ⟨hb hc, hcut⟩
    have hahead := ofTokens?_cut (hcut.kindAt_cases 0) (hcut.kindAt_cases 1)
    rw [operator_run] at hrun ⊢
    cases hnext : BinaryOperator.ofTokens? (s.kindAt 0) (s.kindAt 1) with
    | none =>
      rw [hnext] at hrun hahead
      rw [or_self_iff.mp hahead]
      exact ⟨b', s', rfl, hidle hrun⟩
    | some next =>
      obtain ⟨op, width⟩ := next
      rw [hnext] at hrun hahead
      dsimp only at hrun
      by_cases hpower : op.power < power
      · rw [if_pos hpower] at hrun
        refine ⟨b', s', ?_, hidle hrun⟩
        rcases hahead with hahead | hahead <;> rw [hahead]
        exact if_pos hpower
      · have hwords := operatorWords_run width s
        generalize (if width = 2 then s.advance.advance else s.advance) = u at hwords
        rw [if_neg hpower, run_bind, hwords] at hrun
        obtain ⟨_, hu, -⟩ := operatorWords_finished hnext hcut.final _ u hwords
        obtain ⟨_, hv, -⟩ := (hf op).closes u (hu.final ▸ hcut.final) d v hrun
        obtain ⟨hnext', u', hrun', hcut'⟩ :=
          operatorWords_cut hcut hnext hwords (hlen.trans hv.length_le)
        rw [hnext']
        dsimp only
        rw [if_neg hpower, run_bind, hrun']
        exact (hf op).run hc _ u' d v hcut' hrun hlen

theorem operations_cuts (hin : inner.Cuts n behind) (power rounds : Nat) :
    ∀ {c : Prop} {left left' : Expr}, (c → left = left'.shift n) →
      Cuts n behind c (Expr.shift n) (operations inner power rounds left)
        (operations whole power rounds left') := by
  induction rounds with
  | zero => exact fun hleft => .pure hleft
  | succ rounds ih =>
    intro c left left' hleft
    refine operator_cuts hleft fun op => .bind (rightOperand_cuts hin op) fun right right' => ?_
    exact ih fun hc => by
      simp [Expr.binaryOf, Expr.shift, Note.shift, Span.shift_merge, hleft hc.1, hc.2]

theorem exprWith_cuts (hin : inner.Cuts n behind) (power : Nat) :
    Cuts n behind c (Expr.shift n) (exprWith inner power) (exprWith whole power) :=
  .bind (operand_cuts hin) fun _ _ =>
    .rounds (fun m => operations_cuts hin power m And.right) fun m m' s _ hm hle =>
      operations_rounds power m m' hle _ s hm

/-! ### Queries -/

theorem condition_cuts (hin : inner.Cuts n behind) :
    Cuts n behind c (Expr.shift n) (condition inner) (condition whole) :=
  .look (columnsHint_looks _) (columnsHint_looks _) fun _ _ => (hin.expr 0).under _ _

/-- All columns of a table. -/
def tableStar : Parser ResultColumn := do
  let table ← ident
  let _ ← advance
  let _ ← advance
  return .tableStar table

/-- Whether all columns of a table come next. -/
def seesTableStar (s : ParserState) : Bool :=
  isNameStart (s.kindAt 0) && s.kindAt 1 == .dot && s.kindAt 2 == .star

theorem seesTableStar_iff (s : ParserState) : seesTableStar s = true ↔
    isNameStart (s.kindAt 0) = true ∧ s.kindAt 1 = .dot ∧ s.kindAt 2 = .star := by
  simp [seesTableStar, and_assoc]

theorem tableStar_run {s : ParserState} (hne : s.tokens ≠ []) (h : seesTableStar s = true) :
    ∃ name quoted, nameOf? s.current.kind = some (name, quoted) ∧ tableStar.run s =
      (.ok (.tableStar ⟨name, quoted, s.current.span⟩), s.advance.advance.advance) := by
  obtain ⟨t, ts, hts⟩ := List.exists_cons_of_ne_nil hne
  have hkind : s.kindAt 0 = s.current.kind := by simp [kindAt, ParserState.current, hts]
  have hname := ((seesTableStar_iff s).mp h).1
  rw [hkind] at hname
  obtain ⟨⟨name, quoted⟩, hname⟩ := Option.isSome_iff_exists.mp hname
  refine ⟨name, quoted, hname, ?_⟩
  rw [tableStar, run_bind, ident_run, hname]
  rfl

theorem tableStar_reads {s : ParserState} (h : seesTableStar s = true) :
    Reads tableStar s fun _ read => read.length = 3 ∧ Finished read := by
  obtain ⟨-, hdot, hstar⟩ := (seesTableStar_iff s).mp h
  refine (ident_reads s).bind fun table read u hu hname => ?_
  obtain ⟨t, rfl⟩ := hname.eq_singleton
  refine .advance ((hu.kindAt_eq 0).symm.trans hdot) rfl fun point v hv _ => ?_
  refine .advance ((hv.kindAt_eq 0).symm.trans ((hu.kindAt_eq 1).symm.trans hstar)) rfl
    fun star w _ hkind => .pure ⟨rfl, ?_⟩
  exact Finished.append_right [t, point] (List.cons_ne_nil star [])
    (.singleton (by simp [hkind]))

theorem tableStar_cut {s s' u : ParserState} {column : ResultColumn} (hcut : Cut n behind s s')
    (hs : seesTableStar s = true) (hs' : seesTableStar s' = true) (hlen : 3 ≤ s'.tokens.length)
    (hrun : tableStar.run s = (.ok column, u)) :
    ∃ column' u', tableStar.run s' = (.ok column', u') ∧ column = column'.shift n ∧
      Cut n behind u u' := by
  have hlength := hcut.length_eq
  obtain ⟨hshifts, hcut₁⟩ := hcut.advance (List.length_pos_iff.mp (by omega))
  have hcut₃ := hcut₁.advanceTwice (by rw [tokens_advance_eq_tail, List.length_tail]; omega)
  obtain ⟨name, quoted, hname, hstar⟩ := tableStar_run (List.length_pos_iff.mp (by omega)) hs
  obtain ⟨name', quoted', hname', hstar'⟩ := tableStar_run (List.length_pos_iff.mp (by omega)) hs'
  rw [hshifts.kind, hname'] at hname
  obtain ⟨rfl, rfl⟩ := Prod.mk.inj (Option.some.inj hname)
  rw [hstar] at hrun
  obtain ⟨hcolumn, rfl⟩ := Prod.mk.inj hrun
  refine ⟨_, _, hstar', ?_, hcut₃⟩
  rw [← Except.ok.inj hcolumn, ResultColumn.shift, Ident.shift, hshifts.span]

/-- All columns of a table, or else another column. -/
theorem tableStarOr_cuts {other other' : Parser ResultColumn}
    (hother : Cuts n behind c (ResultColumn.shift n) other other') :
    Cuts n behind c (ResultColumn.shift n)
      (do if isNameStart (← peek) && (← peekAt 1) == .dot && (← peekAt 2) == .star then tableStar
          else other)
      (do if isNameStart (← peek) && (← peekAt 1) == .dot && (← peekAt 2) == .star then tableStar
          else other') := by
  have hlook : ∀ (other : Parser ResultColumn) s,
      (do if isNameStart (← peek) && (← peekAt 1) == .dot && (← peekAt 2) == .star then tableStar
          else other : Parser ResultColumn).run s =
        if seesTableStar s = true then tableStar.run s else other.run s := by
    intro other s
    have hpeek : ∀ i, (peekAt i).run s = (.ok (s.kindAt i), s) := fun _ => rfl
    rw [show peek = peekAt 0 from rfl, run_bind, hpeek]
    dsimp only
    rw [run_bind, hpeek]
    dsimp only
    rw [run_bind, hpeek]
    dsimp only
    unfold seesTableStar
    split <;> rfl
  refine .ifAhead seesTableStar 3 (hlook other) (hlook other') (fun s s' hcut hlen => ?_)
    (fun s s' hcut hs' => ?_) (fun s hs => ?_)
    (fun _ s s' b v hcut hs hs' hlen hrun _ => tableStar_cut hcut hs hs' hlen hrun) hother
  · rw [seesTableStar, seesTableStar, hcut.kindAt_eq (by omega), hcut.kindAt_eq (by omega),
      hcut.kindAt_eq (by omega)]
  · rw [seesTableStar_iff] at hs' ⊢
    obtain ⟨hname, hdot, hstar⟩ := hs'
    refine ⟨?_, hcut.kindAt_of_ne hdot nofun, hcut.kindAt_of_ne hstar nofun⟩
    have hne : s'.kindAt 0 ≠ .eof := fun heof => by simp [heof, isNameStart, nameOf?] at hname
    rwa [hcut.kindAt_of_ne rfl hne]
  · exact (tableStar_reads hs).mono fun _ _ hread => ⟨Nat.le_of_eq hread.1.symm, hread.2⟩

theorem resultColumn_cuts (hin : inner.Cuts n behind) :
    Cuts n behind c (ResultColumn.shift n) (resultColumn inner) (resultColumn whole) := by
  have hexpr : Cuts n behind c (ResultColumn.shift n)
      (do let value ← inner.expr 0; return .expr value (← alias?))
      (do let value ← whole.expr 0; return .expr value (← alias?)) :=
    .bind (hin.expr 0) fun _ _ => .bind alias?_cuts fun _ _ => .pure fun hc => by
      simp [ResultColumn.shift, hc]
  have hstar : CutsAt n behind .star c (ResultColumn.shift n)
      (do let star ← advance; return .star star.span)
      (do let star ← advance; return .star star.span) :=
    .advance rfl (by simp) fun _ _ => .pure fun hc => by simp [ResultColumn.shift, hc.2.span]
  exact .ifCheck (by simp) hstar (tableStarOr_cuts hexpr)

theorem source_cuts (hin : inner.Cuts n behind) :
    Cuts n behind c (Source.shift n) (source inner) (source whole) := by
  have hquery : CutsAt n behind .leftParen c (Source.shift n)
      (do
        let opening ← advance
        let select ← inner.select
        let _ ← expect .rightParen "')'"
        let span ← spanFrom opening.span
        return .subquery select (← alias?) span)
      (do
        let opening ← advance
        let select ← whole.select
        let _ ← expect .rightParen "')'"
        let span ← spanFrom opening.span
        return .subquery select (← alias?) span) :=
    .advance rfl nofun fun opening opening' => .bind hin.select fun _ _ =>
      .expect rfl nofun fun _ _ => .spanFrom (fun hc => hc.1.1.2.span) fun _ _ =>
        .bind alias?_cuts fun _ _ => .pure fun hc => by simp [Source.shift, hc]
  refine .ifBoth nofun nofun (fun s hs _ => ?_)
    (fun hc s s' b v hcut hs hs' _ => hquery.run hc s s' b v hcut hs hs') ?_
  · refine Reads.and ?_ ((hquery.closes s hs).mono fun _ _ => And.right)
    refine .advance hs rfl fun t u _ _ => ?_
    refine (hin.fills.select_consumes u).bind fun select read v _ hne => ?_
    refine ((expect_composed _ _).forward.reads v).bind fun _ more w _ _ => ?_
    refine (((spanFrom_composed _).bind fun _ => alias?_composed.map).forward.reads w).mono
      fun _ rest _ => ?_
    have := List.length_pos_iff.mpr hne
    simp only [List.length_cons, List.length_append]
    omega
  · exact .bind ident_cuts fun _ _ => .bind alias?_cuts fun _ _ => .pure fun hc => by
      simp [Source.shift, hc]

/-- The words of a join other than a comma, or else what comes of none. -/
def joinWords? (other : Parser (Option JoinOperator)) : Parser (Option JoinOperator) := do
  if ← eatWord .LEFT then
    let outer ← eatWord .OUTER
    let _ ← expectWord .JOIN
    return some (if outer then .leftOuter else .left)
  else if ← eatWord .INNER then
    let _ ← expectWord .JOIN
    return some .inner
  else if ← eatWord .CROSS then
    let _ ← expectWord .JOIN
    return some .cross
  else if ← eatWord .JOIN then
    return some .plain
  else
    other

theorem joinWords?_cuts {other : Parser (Option JoinOperator)}
    (hother : Cuts n behind c id other other) :
    Cuts n behind c id (joinWords? other) (joinWords? other) := by
  have hjoin : ∀ {c} (operator : JoinOperator), Cuts n behind c id
      (do let _ ← expectWord .JOIN; return some operator)
      (do let _ ← expectWord .JOIN; return some operator) := fun _ =>
    .expect rfl nofun fun _ _ => .pure fun _ => rfl
  exact .ifEat rfl nofun (.bindId (eatWord_cuts _) fun outer => hjoin _) <|
    .ifEat rfl nofun (hjoin _) <| .ifEat rfl nofun (hjoin _) <|
      .ifEat rfl nofun (.pure fun _ => rfl) hother

theorem joinOperator?_cuts (natural : Bool) :
    Cuts n behind c id (joinOperator? natural) (joinOperator? natural) := by
  cases natural with
  | true => exact .look (check_looks _) (check_looks _) fun _ _ => joinWords?_cuts (.failExpected _)
  | false =>
    exact .ifCheck nofun (.advance rfl nofun fun _ _ => .pure fun _ => rfl)
      (joinWords?_cuts (.pure fun _ => rfl))

theorem joinOperator?_rests : Rests (joinOperator? false) none :=
  .bind (.check nofun) <| .bind (.eat nofun) <| .bind (.eat nofun) <| .bind (.eat nofun) <|
    .bind (.eat nofun) (.pure none)

theorem join?_cuts (hin : inner.Cuts n behind) :
    Cuts n behind c (Option.map (Join.shift n)) (join? inner) (join? whole) := by
  refine .start (consumesForSome (join?_reads hin.fills) fun _ _ => Outline.Fills.ne_nil)
    (fun _ => .bind (.eat nofun) (.bind joinOperator?_rests (.pure none))) fun first first' => ?_
  refine .bindId (eatWord_cuts _) fun natural => .bindId (joinOperator?_cuts natural)
    fun operator? => ?_
  cases operator? with
  | none => exact .pure fun _ => rfl
  | some operator =>
    exact .look tablesHint_looks tablesHint_looks fun _ _ =>
      .bind ((source_cuts hin).under _ _) fun _ _ =>
        .bind (afterWord_cuts _ (condition_cuts hin)) fun _ _ =>
          .spanFrom (fun hc => hc.1.1.2.span) fun _ _ => .pure fun hc => by simp [Join.shift, hc]

theorem fromClause_cuts (hin : inner.Cuts n behind) :
    Cuts n behind c (FromClause.shift n) (fromClause inner) (fromClause whole) :=
  .bind (source_cuts hin) fun _ _ => .bind (many_cuts (join?_cuts hin) IsRepeated.join.consumes)
    fun _ _ => .pure fun hc => by simp [FromClause.shift, hc]

theorem groupBy_cuts (hin : inner.Cuts n behind) :
    CutsAt n behind (.keyword .GROUP) c (GroupBy.shift n) (groupBy inner) (groupBy whole) :=
  .advance rfl nofun fun _ _ => .expect rfl nofun fun _ _ =>
    .look (columnsHint_looks _) (columnsHint_looks _) fun _ _ =>
      .bind ((exprs_cuts hin).under _ _) fun _ _ =>
        .bind (afterWord_cuts _ (condition_cuts hin)) fun _ _ =>
          .spanFrom (fun hc => hc.1.1.1.2.span) fun _ _ => .pure fun hc => by
            simp [GroupBy.shift, hc]

theorem direction?_cuts : Cuts n behind c id direction? direction? :=
  .ifEat rfl nofun (.pure fun _ => rfl) <| .ifEat rfl nofun (.pure fun _ => rfl)
    (.pure fun _ => rfl)

theorem nullsOrder_cuts : Cuts n behind c id nullsOrder nullsOrder :=
  .ifEat rfl nofun (.pure fun _ => rfl) <| .ifEat rfl nofun (.pure fun _ => rfl)
    (.failExpected _)

theorem orderingTerm_cuts (hin : inner.Cuts n behind) :
    Cuts n behind c (OrderingTerm.shift n) (orderingTerm inner) (orderingTerm whole) :=
  .bind (hin.expr 0) fun _ _ => .bindId direction?_cuts fun _ =>
    .bind (afterWord_cuts _ nullsOrder_cuts) fun _ _ => .pure fun hc => by
      simp [OrderingTerm.shift, hc]

theorem orderBy_cuts (hin : inner.Cuts n behind) :
    CutsAt n behind (.keyword .ORDER) c (OrderBy.shift n) (orderBy inner) (orderBy whole) := by
  have hterms : ∀ {c}, Cuts n behind c (List.map (OrderingTerm.shift n))
      (commaSeparated (orderingTerm inner)) (commaSeparated (orderingTerm whole)) :=
    commaSeparated_cuts (orderingTerm_cuts hin) (orderingTerm_composed whole_composed)
  exact .advance rfl nofun fun _ _ => .expect rfl nofun fun _ _ =>
    .look (columnsHint_looks _) (columnsHint_looks _) fun _ _ => .bind (hterms.under _ _) fun _ _ =>
      .spanFrom (fun hc => hc.1.1.2.span) fun _ _ => .pure fun hc => by simp [OrderBy.shift, hc]

theorem limit_cuts (hin : inner.Cuts n behind) :
    CutsAt n behind (.keyword .LIMIT) c (Limit.shift n) (limit inner) (limit whole) := by
  refine .advance rfl nofun fun _ _ => .bind (hin.expr 0) fun _ _ => .ifEat rfl nofun ?_ <|
    .ifEat rfl nofun ?_ ?_
  · exact .bind (hin.expr 0) fun _ _ => .spanFrom (fun hc => hc.1.1.2.span) fun _ _ =>
      .pure fun hc => by simp [Limit.shift, hc]
  · exact .bind (hin.expr 0) fun _ _ => .spanFrom (fun hc => hc.1.1.2.span) fun _ _ =>
      .pure fun hc => by simp [Limit.shift, hc]
  · exact .spanFrom (fun hc => hc.1.2.span) fun _ _ => .pure fun hc => by simp [Limit.shift, hc]

theorem quantifier_cuts : Cuts n behind c id quantifier quantifier :=
  .ifEat rfl nofun (.pure fun _ => rfl) (.bindId (eatWord_cuts _) fun _ => .pure fun _ => rfl)

theorem selectWith_cuts (hin : inner.Cuts n behind) :
    Cuts n behind c (Select.shift n) (selectWith inner) (selectWith whole) := by
  have hcolumns : ∀ {c}, Cuts n behind c (List.map (ResultColumn.shift n))
      (commaSeparated (resultColumn inner)) (commaSeparated (resultColumn whole)) :=
    commaSeparated_cuts (resultColumn_cuts hin) (resultColumn_composed whole_composed)
  have hfrom : ∀ {c}, Cuts n behind c (FromClause.shift n)
      (do
        let h ← tablesHint
        under { h with keywords := afterSourceKeywords } (fromClause inner))
      (do
        let h ← tablesHint
        under { h with keywords := afterSourceKeywords } (fromClause whole)) :=
    .look tablesHint_looks tablesHint_looks fun _ _ => (fromClause_cuts hin).under _ _
  refine .expect rfl nofun fun word word' => .bindId quantifier_cuts fun distinct =>
    .look (columnsHint_looks _) (columnsHint_looks _) fun _ _ =>
      .bind (hcolumns.under _ _) fun _ _ => .bind (afterWord_cuts _ hfrom) fun _ _ =>
        .bind (afterWord_cuts _ (condition_cuts hin)) fun _ _ =>
          .bind (atWord_cuts (groupBy_cuts hin)) fun _ _ =>
            .bind (atWord_cuts (orderBy_cuts hin)) fun _ _ =>
              .bind (atWord_cuts (limit_cuts hin)) fun _ _ => .spanFrom ?_ fun _ _ => .pure ?_
  · exact fun hc => hc.1.1.1.1.1.1.2.span
  · exact fun hc => by simp [Select.shift_eq, hc]

/-! ### The depth of nesting -/

theorem nested_cuts (depth : Nat) : (nested depth).Cuts n behind := by
  induction depth with
  | zero => exact ⟨fun _ => .failExpected _, .failExpected _, nested_fills 0⟩
  | succ depth ih =>
    have hexpr : ∀ {c : Prop} power, Cuts n behind c (Expr.shift n) ((nested (depth + 1)).expr power)
        (exprAt power) := fun power => (exprWith_cuts ih power).congr (exprAt_run power)
    have hselect : ∀ {c : Prop}, Cuts n behind c (Select.shift n) (nested (depth + 1)).select
        select := (selectWith_cuts ih).congr select_run
    exact ⟨hexpr, hselect, nested_fills (depth + 1)⟩

theorem whole_cuts : whole.Cuts n behind where
  expr power := .bounded fun depth => (nested_cuts depth).expr power
  select := .bounded fun depth => (nested_cuts depth).select
  fills := whole_fills

end Parser
end SqlAnalysis

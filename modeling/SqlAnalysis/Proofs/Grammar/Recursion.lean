import SqlAnalysis.Proofs.Grammar.Composition
import SqlAnalysis.Proofs.Grammar.Lockstep
import SqlAnalysis.Proofs.Grammar.Operators

/-!
# Recursion is bounded by the tokens

An expression or a query is read with a parser for what stands inside it. That parser is
never asked before a token has been read: if two of them run alike on fewer tokens than are
left, what is built on them runs alike on the tokens that are left. By induction on their
number the depth of nesting that a parser is given does not matter once it exceeds them, so
that expressions and queries are read by parsers that call each other without any depth.
-/
namespace SqlAnalysis

/-! ## Parsers only move forward

Whatever a parser finds and however it ends, what it leaves is a rest of the tokens that it
was given. Nothing is asked of the state it starts in. A parser that begins by reading a
token leaves fewer of them. -/

open ParserState

namespace ParserState

theorem exists_took_advance (s : ParserState) : ∃ read, s.Took read s.advance := by
  cases h : s.tokens with
  | nil =>
    have hsame : s.advance = s := by simp [advance, h]
    exact ⟨[], hsame.symm ▸ .refl s⟩
  | cons t ts => exact ⟨[t], took_advance h⟩

end ParserState

namespace Parser

/-- Whether a parser leaves a rest of the tokens that it is given. -/
def Forward {α : Type} (p : Parser α) : Prop :=
  ∀ s : ParserState, ∃ read, s.Took read (p.run s).2

variable {α β : Type}

namespace Forward

variable {p p' : Parser α} {f : α → Parser β}

theorem length_le (h : Forward p) (s : ParserState) :
    (p.run s).2.tokens.length ≤ s.tokens.length :=
  (h s).elim fun _ hu => hu.length_le

theorem pure (a : α) : Forward (pure a : Parser α) :=
  fun s => ⟨[], .refl s⟩

theorem throw (d : Diagnostic) : Forward (throw d : Parser α) :=
  fun s => ⟨[], .refl s⟩

theorem bind (hp : Forward p) (hf : ∀ a, Forward (f a)) : Forward (p >>= f) := by
  intro s
  obtain ⟨read, hu⟩ := hp s
  rw [run_bind]
  rcases hrun : p.run s with ⟨_ | a, u⟩
  · rw [hrun] at hu
    exact ⟨read, hu⟩
  · rw [hrun] at hu
    obtain ⟨more, hv⟩ := hf a u
    exact ⟨read ++ more, hu.trans hv⟩

/-- A result that is put under a constructor. -/
theorem map {g : α → β} (hp : Forward p) : Forward (do return g (← p)) :=
  hp.bind fun _ => .pure _

theorem get {f : ParserState → Parser β} (hf : ∀ s, Forward (f s)) :
    Forward (MonadState.get >>= f) :=
  fun s => hf s s

theorem ite {c : Prop} [Decidable c] (hp : Forward p) (hp' : Forward p') :
    Forward (if c then p else p') := by
  split
  · exact hp
  · exact hp'

end Forward

/-- Whether a parser reads one token with `first` before all else. -/
def StartsWith (first : Parser Token) (p : Parser α) : Prop :=
  ∃ f : Token → Parser α, p = first >>= f ∧ ∀ t, Forward (f t)

theorem StartsWith.forward {first : Parser Token} {p : Parser α} (hfirst : Forward first) :
    StartsWith first p → Forward p
  | ⟨_, hp, hf⟩ => hp ▸ hfirst.bind hf

theorem StartsWith.exists_took {first : Parser Token} {p : Parser α} {s : ParserState}
    (hs : s.tokens ≠ []) (hfirst : first.run s = (.ok s.current, s.advance)) :
    StartsWith first p → ∃ read, read ≠ [] ∧ s.Took read (p.run s).2
  | ⟨f, hp, hf⟩ => by
    obtain ⟨t, ts, hts⟩ := List.exists_cons_of_ne_nil hs
    obtain ⟨more, hmore⟩ := hf s.current s.advance
    rw [hp, run_bind, hfirst]
    exact ⟨[t] ++ more, List.cons_ne_nil _ _, (took_advance hts).trans hmore⟩

theorem Forward.under {p : Parser α} (hp : Forward p) (h : Hint) : Forward (Parser.under h p) := by
  intro s
  obtain ⟨read, hu⟩ := hp { s with hints := [] }
  exact ⟨read, hu.tokens, hu.final, hu.lastSpan⟩

theorem typeParam_forward : Forward typeParam := by
  refine Forward.get fun s => ?_
  split
  · exact Forward.bind (fun s => s.exists_took_advance) fun _ => .ite (.pure _) (.throw _)
  · exact .get fun _ => .throw _

/-- Whatever parsers are put together from that only move forward does so too. -/
theorem Composed.forward {p : Parser α} (h : Composed Forward p) : Forward p := by
  induction h with
  | base hp => exact hp
  | pure a => exact .pure a
  | bind _ _ hp hf => exact hp.bind hf
  | state => exact fun s => ⟨[], .refl s⟩
  | advance => exact fun s => s.exists_took_advance
  | failExpected what => exact .get fun _ => .throw _
  | typeParam => exact typeParam_forward
  | under _ h hp => exact hp.under h

theorem BeginsWith.startsWith {first : Parser Token} {p : Parser α} :
    BeginsWith Forward first p → StartsWith first p
  | ⟨f, hp, hf⟩ => ⟨f, hp, fun t => (hf t).forward⟩

end Parser

/-- Whether the parsers for what stands inside only move forward. -/
structure Nested.Forward (inner : Nested) : Prop where
  expr : ∀ power, Parser.Forward (inner.expr power)
  select : Parser.Forward inner.select

theorem Nested.Forward.composed {inner : Nested} (h : inner.Forward) :
    inner.Composed Parser.Forward :=
  ⟨fun power => .base (h.expr power), .base h.select⟩

/-! ## Parsers on fewer tokens -/

namespace Parser

variable {α β : Type} {n : Nat}

/-- Whether two parsers run alike wherever fewer than `n` tokens are left. -/
def AlikeBelow (n : Nat) (p p' : Parser α) : Prop :=
  ∀ s : ParserState, s.tokens.length < n → p.run s = p'.run s

/-- Whether they do where besides the next token is of a kind. -/
def AlikeAt (kind : TokenKind) (n : Nat) (p p' : Parser α) : Prop :=
  ∀ s : ParserState, s.tokens.length < n → s.kindAt 0 = kind → p.run s = p'.run s

namespace AlikeBelow

variable {p p' : Parser α} {f f' : α → Parser β} {kind : TokenKind}

theorem refl (p : Parser α) : AlikeBelow n p p :=
  fun _ _ => rfl

theorem mono {m : Nat} (h : AlikeBelow n p p') (hm : m ≤ n) : AlikeBelow m p p' :=
  fun s hs => h s (Nat.lt_of_lt_of_le hs hm)

theorem at_kind (h : AlikeBelow n p p') : AlikeAt kind n p p' :=
  fun s hs _ => h s hs

theorem bind (hp : AlikeBelow n p p') (hforward : Composed Forward p)
    (hf : ∀ a, AlikeBelow n (f a) (f' a)) : AlikeBelow n (p >>= f) (p' >>= f') := by
  intro s hs
  have hle := hforward.forward.length_le s
  rw [run_bind, run_bind, ← hp s hs]
  rcases hrun : p.run s with ⟨_ | a, u⟩
  · rfl
  · rw [hrun] at hle
    exact hf a u (Nat.lt_of_le_of_lt hle hs)

/-- What is read first may be the same parser. -/
theorem andThen (hforward : Composed Forward p) (hf : ∀ a, AlikeBelow n (f a) (f' a)) :
    AlikeBelow n (p >>= f) (p >>= f') :=
  (refl p).bind hforward hf

/-- A result that is put under a constructor. -/
theorem map {g : α → β} (hp : AlikeBelow n p p') (hforward : Composed Forward p) :
    AlikeBelow n (do return g (← p)) (do return g (← p')) :=
  hp.bind hforward fun _ => .refl _

theorem get {f f' : ParserState → Parser β} (hf : ∀ s, AlikeBelow n (f s) (f' s)) :
    AlikeBelow n (MonadState.get >>= f) (MonadState.get >>= f') :=
  fun s hs => hf s s hs

theorem ite {c : Prop} [Decidable c] {q q' : Parser α} (hp : AlikeBelow n p p')
    (hq : AlikeBelow n q q') : AlikeBelow n (if c then p else q) (if c then p' else q') := by
  split
  · exact hp
  · exact hq

theorem under (hp : AlikeBelow n p p') (h : Hint) :
    AlikeBelow n (Parser.under h p) (Parser.under h p') := by
  intro s hs
  rw [run_under, run_under, hp { s with hints := [] } hs]

/-! Once a token is read there is one less. -/

theorem peek {f f' : TokenKind → Parser β} (hf : ∀ kind, AlikeAt kind n (f kind) (f' kind)) :
    AlikeBelow n (Parser.peek >>= f) (Parser.peek >>= f') :=
  fun s hs => hf (s.kindAt 0) s hs rfl

theorem ifCheck {yes yes' no no' : Parser β} (hyes : AlikeAt kind n yes yes')
    (hno : AlikeBelow n no no') :
    AlikeBelow n (check kind >>= fun b => if b then yes else no)
      (check kind >>= fun b => if b then yes' else no') := by
  intro s hs
  have hrun : (check kind).run s = (.ok (decide (s.kindAt 0 = kind)), s) := rfl
  rw [run_bind, run_bind, hrun]
  by_cases hkind : s.kindAt 0 = kind
  · simpa [hkind] using hyes s hs hkind
  · simpa [hkind] using hno s hs

end AlikeBelow

namespace AlikeAt

variable {kind : TokenKind}

theorem ite {c : Prop} [Decidable c] {p p' q q' : Parser α} (hp : AlikeAt kind n p p')
    (hq : AlikeAt kind n q q') :
    AlikeAt kind n (if c then p else q) (if c then p' else q') := by
  split
  · exact hp
  · exact hq

theorem peekAt {f f' : TokenKind → Parser β} (m : Nat)
    (hf : ∀ next, AlikeAt kind n (f next) (f' next)) :
    AlikeAt kind n (Parser.peekAt m >>= f) (Parser.peekAt m >>= f') :=
  fun s hs hs0 => hf (s.kindAt m) s hs hs0

theorem advance {f f' : Token → Parser β} (hkind : kind ≠ .eof)
    (hf : ∀ t, AlikeBelow n (f t) (f' t)) :
    AlikeAt kind (n + 1) (Parser.advance >>= f) (Parser.advance >>= f') := by
  intro s hs hs0
  have hne : s.tokens ≠ [] := fun hnil => hkind (by simp [← hs0, kindAt, hnil])
  have hlt := length_advance_lt hne
  exact hf s.current s.advance (by omega)

end AlikeAt

/-- A token that must be there is read after a look. -/
theorem expect_bind (kind : TokenKind) (what : String) (f : Token → Parser β) :
    expect kind what >>= f =
      check kind >>= fun b => if b then advance >>= f else failExpected what >>= f := by
  rw [expect, bind_assoc]
  congr 1
  funext b
  cases b <;> rfl

theorem ifEat_bind (kind : TokenKind) (yes no : Parser β) :
    (eat kind >>= fun b => if b then yes else no) =
      check kind >>= fun b => if b then advance >>= fun _ => yes else no := by
  rw [eat, bind_assoc]
  congr 1
  funext b
  cases b <;> rfl

namespace AlikeBelow

variable {kind : TokenKind}

theorem expect {f f' : Token → Parser β} (hkind : kind ≠ .eof) (what : String)
    (hf : ∀ t, AlikeBelow n (f t) (f' t)) :
    AlikeBelow (n + 1) (Parser.expect kind what >>= f) (Parser.expect kind what >>= f') := by
  rw [expect_bind, expect_bind]
  exact .ifCheck (.advance hkind hf) (.refl _)

theorem ifEat {yes yes' no no' : Parser β} (hkind : kind ≠ .eof)
    (hyes : AlikeBelow n yes yes') (hno : AlikeBelow (n + 1) no no') :
    AlikeBelow (n + 1) (eat kind >>= fun b => if b then yes else no)
      (eat kind >>= fun b => if b then yes' else no') := by
  rw [ifEat_bind, ifEat_bind]
  exact .ifCheck (.advance hkind fun _ => hyes) hno

end AlikeBelow

/-! ### Repetition -/

section

variable {p p' : Parser α}

theorem manyUpTo_below {p p' : Parser (Option α)} (hp : AlikeBelow n p p')
    (hforward : Composed Forward p)
    (rounds : Nat) : AlikeBelow n (manyUpTo p rounds) (manyUpTo p' rounds) := by
  induction rounds with
  | zero => exact .refl _
  | succ rounds ih =>
    refine hp.bind hforward fun a? => ?_
    cases a? with
    | none => exact .refl _
    | some a => exact ih.map (manyUpTo_composed hforward rounds)

theorem many_below {p p' : Parser (Option α)} (hp : AlikeBelow n p p')
    (hforward : Composed Forward p) :
    AlikeBelow n (many p) (many p') :=
  .get fun _ => manyUpTo_below hp hforward _

theorem after_below (kind : TokenKind) (hp : AlikeBelow n p p') (hforward : Composed Forward p) :
    AlikeBelow n (after kind p) (after kind p') :=
  .andThen (eat_composed _) fun _ => .ite (hp.map hforward) (.refl _)

theorem afterWord_below (word : Keyword) (hp : AlikeBelow n p p') (hforward : Composed Forward p) :
    AlikeBelow n (afterWord word p) (afterWord word p') :=
  after_below _ hp hforward

theorem commaSeparated_below (hp : AlikeBelow n p p') (hforward : Composed Forward p) :
    AlikeBelow n (commaSeparated p) (commaSeparated p') :=
  hp.bind hforward fun _ => (many_below (after_below _ hp hforward)
    (after_composed _ hforward)).map (many_composed (after_composed _ hforward))

theorem unlessClosing_below {p p' : Parser (List α)} (hp : AlikeBelow n p p') :
    AlikeBelow n (unlessClosing p) (unlessClosing p') :=
  .andThen (check_composed _) fun _ => .ite (.refl _) hp

theorem atWord_below (word : Keyword) (hp : AlikeBelow n p p') (hforward : Composed Forward p) :
    AlikeBelow n (atWord word p) (atWord word p') :=
  .andThen (check_composed _) fun _ => .ite (hp.map hforward) (.refl _)

end
end Parser

/-- Whether the parsers for what stands inside run alike wherever fewer than `n` tokens are
left. -/
structure Nested.AlikeBelow (n : Nat) (inner inner' : Nested) : Prop where
  expr : ∀ power, Parser.AlikeBelow n (inner.expr power) (inner'.expr power)
  select : Parser.AlikeBelow n inner.select inner'.select

namespace Parser

variable {α : Type} {n : Nat} {inner inner' : Nested}

/-! ### Expressions -/

theorem exprs_below (hin : Nested.AlikeBelow n inner inner') (hforward : inner.Composed Forward) :
    AlikeBelow n (commaSeparated (inner.expr 0)) (commaSeparated (inner'.expr 0)) :=
  commaSeparated_below (hin.expr 0) (hforward.expr 0)

/-- Expressions under a hint, or none. -/
theorem listed_below (hin : Nested.AlikeBelow n inner inner') (hforward : inner.Composed Forward)
    (change : Hint → Hint) :
    AlikeBelow n
      (unlessClosing do under (change (← columnsHint [])) (commaSeparated (inner.expr 0)))
      (unlessClosing do under (change (← columnsHint [])) (commaSeparated (inner'.expr 0))) :=
  unlessClosing_below <| .andThen (columnsHint_composed _) fun _ =>
    (exprs_below hin hforward).under _

theorem bracketTerm_below (hin : Nested.AlikeBelow n inner inner')
    (hforward : inner.Composed Forward) :
    AlikeAt .leftParen (n + 1) (bracketTerm inner) (bracketTerm inner') := by
  refine .advance nofun fun opening => .andThen (check_composed _) fun _ => .ite ?_ ?_
  · exact hin.select.bind hforward.select fun _ => .refl _
  · exact (exprs_below hin hforward).bind (exprs_composed hforward) fun _ => .refl _

theorem call_below (hin : Nested.AlikeBelow n inner inner') (hforward : inner.Composed Forward)
    (function : Ident) :
    AlikeAt .leftParen (n + 1) (call inner function) (call inner' function) := by
  refine .advance nofun fun opening => .andThen (check_composed _) fun _ => .ite (.refl _) ?_
  have hargs : Composed Forward (do under (← columnsHint []) (commaSeparated (inner.expr 0))) :=
    (columnsHint_composed _).bind fun _ => (exprs_composed hforward).under _
  exact (listed_below hin hforward id).bind (unlessClosing_composed hargs) fun _ => .refl _

theorem nameTerm_below (hin : Nested.AlikeBelow n inner inner')
    (hforward : inner.Composed Forward) :
    AlikeBelow (n + 1) (nameTerm inner) (nameTerm inner') :=
  .andThen ident_composed fun name => .ifCheck (call_below hin hforward name) (.refl _)

theorem minusTerm_below (hin : Nested.AlikeBelow n inner inner')
    (hforward : inner.Composed Forward) :
    AlikeAt .minus (n + 1) (minusTerm inner) (minusTerm inner') :=
  .advance nofun fun _ => (hin.expr _).map (hforward.expr _)

theorem plusTerm_below (hin : Nested.AlikeBelow n inner inner')
    (hforward : inner.Composed Forward) :
    AlikeAt .plus (n + 1) (plusTerm inner) (plusTerm inner') :=
  .advance nofun fun _ => (hin.expr _).map (hforward.expr _)

theorem notTerm_below (hin : Nested.AlikeBelow n inner inner') (hforward : inner.Composed Forward) :
    AlikeAt (.keyword .NOT) (n + 1) (notTerm inner) (notTerm inner') :=
  .advance nofun fun _ => (hin.expr _).map (hforward.expr _)

theorem operand_below (hin : Nested.AlikeBelow n inner inner') (hforward : inner.Composed Forward) :
    AlikeBelow (n + 1) (operand inner) (operand inner') := by
  refine .andThen literal?_composed fun e? => ?_
  cases e? with
  | some e => exact .refl _
  | none =>
    refine .peek fun kind => ?_
    split
    · exact minusTerm_below hin hforward
    · exact plusTerm_below hin hforward
    · exact notTerm_below hin hforward
    · exact bracketTerm_below hin hforward
    · exact (AlikeBelow.ite (nameTerm_below hin hforward) (.refl _)).at_kind

theorem memberList_below (hin : Nested.AlikeBelow n inner inner')
    (hforward : inner.Composed Forward) :
    AlikeBelow n (memberList inner) (memberList inner') := by
  refine .andThen Composed.advance fun opening => .andThen (check_composed _) fun _ => .ite ?_ ?_
  · exact hin.select.bind hforward.select fun _ => .refl _
  · have hitems : Composed Forward (do
        let h ← columnsHint []
        under { h with wrap := some ("(", ")") } (commaSeparated (inner.expr 0))) :=
      (columnsHint_composed _).bind fun _ => (exprs_composed hforward).under _
    exact (listed_below hin hforward fun h => { h with wrap := some ("(", ")") }).bind
      (unlessClosing_composed hitems) fun _ => .refl _

theorem rightOperand_below (hin : Nested.AlikeBelow n inner inner')
    (hforward : inner.Composed Forward)
    (op : BinaryOperator) : AlikeBelow n (rightOperand inner op) (rightOperand inner' op) :=
  .ite (.andThen (check_composed _) fun _ => .ite (memberList_below hin hforward) (hin.expr _))
    (hin.expr _)

/-- An operator has a word at least. -/
theorem AlikeAt.operatorWords {β : Type} {f f' : Unit → Parser β} {kind next : TokenKind}
    {op : BinaryOperator} {width : Nat}
    (hnext : BinaryOperator.ofTokens? kind next = some (op, width))
    (hf : ∀ x, AlikeBelow n (f x) (f' x)) :
    AlikeAt kind (n + 1) (Parser.operatorWords width >>= f)
      (Parser.operatorWords width >>= f') := by
  have hkind : kind ≠ .eof := by
    rintro rfl
    exact Bool.noConfusion (BinaryOperator.ofTokens?_eq_some hnext).1
  simp only [Parser.operatorWords, bind_assoc]
  exact .advance hkind fun _ => .andThen (.ite Composed.advance.map (.pure _)) hf

/-- The operand on the right is read after the operator. -/
theorem operations_below (hin : Nested.AlikeBelow n inner inner')
    (hforward : inner.Composed Forward)
    (power rounds : Nat) :
    ∀ left, AlikeBelow (n + 1) (operations inner power rounds left)
      (operations inner' power rounds left) := by
  induction rounds with
  | zero => exact fun left => .refl _
  | succ rounds ih =>
    intro left
    refine .peek fun kind => .peekAt 1 fun next => ?_
    cases hnext : BinaryOperator.ofTokens? kind next with
    | none => exact (AlikeBelow.refl _).at_kind
    | some first =>
      refine .ite (AlikeBelow.refl _).at_kind (.operatorWords hnext fun _ => ?_)
      exact (rightOperand_below hin hforward _).bind (rightOperand_composed hforward _)
        fun right => (ih _).mono (Nat.le_succ n)

theorem exprWith_below (hin : Nested.AlikeBelow n inner inner') (hforward : inner.Composed Forward)
    (power : Nat) : AlikeBelow (n + 1) (exprWith inner power) (exprWith inner' power) :=
  (operand_below hin hforward).bind (operand_composed hforward) fun _ => .get fun _ =>
    operations_below hin hforward power _ _

/-! ### Queries -/

theorem condition_below (hin : Nested.AlikeBelow n inner inner') :
    AlikeBelow n (condition inner) (condition inner') :=
  .andThen (columnsHint_composed _) fun _ => (hin.expr 0).under _

theorem resultColumn_below (hin : Nested.AlikeBelow n inner inner')
    (hforward : inner.Composed Forward) :
    AlikeBelow n (resultColumn inner) (resultColumn inner') :=
  .andThen (check_composed _) fun _ => .ite (.refl _) <|
    .andThen peek_composed fun _ => .andThen (peekAt_composed 1) fun _ =>
      .andThen (peekAt_composed 2) fun _ => .ite (.refl _) <|
        (hin.expr 0).bind (hforward.expr 0) fun _ => .refl _

theorem source_below (hin : Nested.AlikeBelow n inner inner') (hforward : inner.Composed Forward) :
    AlikeBelow n (source inner) (source inner') :=
  .andThen (check_composed _) fun _ => .andThen (peekAt_composed 1) fun _ => .ite
    (.andThen Composed.advance fun _ => hin.select.bind hforward.select fun _ => .refl _) (.refl _)

theorem join?_below (hin : Nested.AlikeBelow n inner inner') (hforward : inner.Composed Forward) :
    AlikeBelow n (join? inner) (join? inner') := by
  refine .andThen current_composed fun _ => .andThen (eatWord_composed _) fun _ =>
    .andThen (joinOperator?_composed _) fun operator? => ?_
  cases operator? with
  | none => exact .refl _
  | some operator =>
    exact .andThen tablesHint_composed fun _ =>
      ((source_below hin hforward).under _).bind ((source_composed hforward).under _) fun _ =>
        (afterWord_below _ (condition_below hin) (condition_composed hforward)).bind
          (afterWord_composed _ (condition_composed hforward)) fun _ => .refl _

theorem fromClause_below (hin : Nested.AlikeBelow n inner inner')
    (hforward : inner.Composed Forward) :
    AlikeBelow n (fromClause inner) (fromClause inner') :=
  (source_below hin hforward).bind (source_composed hforward) fun _ =>
    (many_below (join?_below hin hforward) (join?_composed hforward)).map
      (many_composed (join?_composed hforward))

theorem groupBy_below (hin : Nested.AlikeBelow n inner inner') (hforward : inner.Composed Forward) :
    AlikeBelow n (groupBy inner) (groupBy inner') :=
  .andThen Composed.advance fun _ => .andThen (expectWord_composed _) fun _ =>
    .andThen (columnsHint_composed _) fun _ =>
      ((exprs_below hin hforward).under _).bind ((exprs_composed hforward).under _) fun _ =>
        (afterWord_below _ (condition_below hin) (condition_composed hforward)).bind
          (afterWord_composed _ (condition_composed hforward)) fun _ => .refl _

theorem orderBy_below (hin : Nested.AlikeBelow n inner inner') (hforward : inner.Composed Forward) :
    AlikeBelow n (orderBy inner) (orderBy inner') := by
  have hterm : AlikeBelow n (orderingTerm inner) (orderingTerm inner') :=
    (hin.expr 0).bind (hforward.expr 0) fun _ => .refl _
  have hterms := commaSeparated_below hterm (orderingTerm_composed hforward)
  exact .andThen Composed.advance fun _ => .andThen (expectWord_composed _) fun _ =>
    .andThen (columnsHint_composed _) fun _ => (hterms.under _).bind
      ((commaSeparated_composed (orderingTerm_composed hforward)).under _) fun _ => .refl _

theorem limit_below (hin : Nested.AlikeBelow n inner inner') (hforward : inner.Composed Forward) :
    AlikeBelow n (limit inner) (limit inner') := by
  have hexpr : ∀ {f : Expr → Parser Limit}, AlikeBelow n (inner.expr 0 >>= f)
      (inner'.expr 0 >>= f) := (hin.expr 0).bind (hforward.expr 0) fun _ => .refl _
  exact .andThen Composed.advance fun _ => (hin.expr 0).bind (hforward.expr 0) fun _ =>
    .andThen (eatWord_composed _) fun _ => .ite hexpr <|
      .andThen (eat_composed _) fun _ => .ite hexpr (.refl _)

/-- All that can be nested in a query stands behind its first word. -/
theorem selectWith_below (hin : Nested.AlikeBelow n inner inner')
    (hforward : inner.Composed Forward) :
    AlikeBelow (n + 1) (selectWith inner) (selectWith inner') := by
  have hselect : TokenKind.keyword .SELECT ≠ .eof := nofun
  refine .expect hselect _ fun _ => .andThen quantifier_composed fun _ =>
    .andThen (columnsHint_composed _) fun _ => ?_
  have hcolumns := resultColumn_composed hforward
  refine ((commaSeparated_below (resultColumn_below hin hforward) hcolumns).under _).bind
    ((commaSeparated_composed hcolumns).under _) fun _ => ?_
  have hfrom : AlikeBelow n
      (do
        let h ← tablesHint
        under { h with keywords := afterSourceKeywords } (fromClause inner))
      (do
        let h ← tablesHint
        under { h with keywords := afterSourceKeywords } (fromClause inner')) :=
    .andThen tablesHint_composed fun _ => (fromClause_below hin hforward).under _
  refine (afterWord_below _ hfrom (hintedFrom_composed hforward)).bind
    (afterWord_composed _ (hintedFrom_composed hforward)) fun _ => ?_
  refine (afterWord_below _ (condition_below hin) (condition_composed hforward)).bind
    (afterWord_composed _ (condition_composed hforward)) fun _ => ?_
  refine (atWord_below _ (groupBy_below hin hforward) (groupBy_composed hforward)).bind
    (atWord_composed _ (groupBy_composed hforward)) fun _ => ?_
  refine (atWord_below _ (orderBy_below hin hforward) (orderBy_composed hforward)).bind
    (atWord_composed _ (orderBy_composed hforward)) fun _ => ?_
  exact (atWord_below _ (limit_below hin hforward) (limit_composed hforward)).bind
    (atWord_composed _ (limit_composed hforward)) fun _ => .refl _

/-! ### The depth of nesting -/

/-- Any two depths of at least `n` are the same where fewer than `n` tokens are left. -/
theorem nested_below (n : Nat) : ∀ depth depth', n ≤ depth → n ≤ depth' →
    Nested.AlikeBelow n (nested depth) (nested depth') := by
  induction n with
  | zero =>
    intro _ _ _ _
    constructor <;> intros <;> intro _ hs <;> omega
  | succ n ih =>
    intro depth depth' hdepth hdepth'
    obtain ⟨d, rfl⟩ : ∃ d, depth = d + 1 := ⟨depth - 1, by omega⟩
    obtain ⟨d', rfl⟩ : ∃ d, depth' = d + 1 := ⟨depth' - 1, by omega⟩
    have hin := ih d d' (by omega) (by omega)
    exact ⟨exprWith_below hin (nested_composed d), selectWith_below hin (nested_composed d)⟩

/-- Expressions and queries with no bound on their nesting. -/
def whole : Nested :=
  ⟨exprAt, select⟩

theorem whole_composed {B : {α : Type} → Parser α → Prop} : whole.Composed B :=
  ⟨exprAt_composed, select_composed⟩

theorem withNesting_run (p : Nested → Parser α) (s : ParserState) :
    (withNesting p).run s = (p (nested (s.tokens.length + 1))).run s := by
  have hget : Parser.run (MonadState.get : Parser ParserState) s = (.ok s, s) := rfl
  rw [withNesting, run_bind, hget]

theorem nested_succ (depth : Nat) :
    nested (depth + 1) = ⟨exprWith (nested depth), selectWith (nested depth)⟩ := rfl

theorem nested_below_whole (depth : Nat) : Nested.AlikeBelow depth (nested depth) whole := by
  constructor
  · intro power s hs
    have hdepth := nested_below (s.tokens.length + 1) depth (s.tokens.length + 1) hs (Nat.le_refl _)
    have hwhole : whole.expr power = withNesting fun inner => inner.expr power := rfl
    rw [hwhole, withNesting_run, hdepth.expr power s (Nat.lt_succ_self _)]
  · intro s hs
    have hdepth := nested_below (s.tokens.length + 1) depth (s.tokens.length + 1) hs (Nat.le_refl _)
    have hwhole : whole.select = withNesting Nested.select := rfl
    rw [hwhole, withNesting_run, hdepth.select s (Nat.lt_succ_self _)]

/-- An expression is read with itself for what stands inside. -/
theorem exprAt_run (power : Nat) (s : ParserState) :
    (exprAt power).run s = (exprWith whole power).run s := by
  have hin := nested_below_whole s.tokens.length
  rw [exprAt, withNesting_run, nested_succ]
  exact exprWith_below hin (nested_composed _) power s (Nat.lt_succ_self _)

theorem select_run (s : ParserState) : select.run s = (selectWith whole).run s := by
  have hin := nested_below_whole s.tokens.length
  rw [select, withNesting_run, nested_succ]
  exact selectWith_below hin (nested_composed _) s (Nat.lt_succ_self _)

end Parser
end SqlAnalysis

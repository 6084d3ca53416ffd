import SqlAnalysis.Proofs.Grammar.Pieces

/-!
# Reading expressions in step

An expression is read up to the first operator that is too loose for it. What is
known of the tokens that are left decides which tree the next operator builds: it
never binds more tightly than the operator at the top of what is read, and it is
looser than `NOT` if a bare `NOT` stands at the end.
-/
namespace SqlAnalysis

open ParserState

/-- The operator that a list of tokens begins with, and how many of them it takes. -/
def nextOperator? (left : List Token) : Option (BinaryOperator × Nat) :=
  BinaryOperator.ofTokens? (kindAhead left 0) (kindAhead left 1)

/-- Whether every operator that may follow is too loose for a power. -/
def Stops (power : Nat) (left : List Token) : Prop :=
  ∀ op width, nextOperator? left = some (op, width) → op.power < power

/-- Whether an operator that follows may take an expression as it is. -/
structure Expr.Fits (e : Expr) (left : List Token) : Prop where
  operator : ∀ top, e.operator? = some top → Stops (top.power + 1) left
  endsInNot : e.endsInNot → Stops BinaryOperator.notPower left

/-- Whether an expression is read up to where no operator of a power follows. -/
structure Expr.ReadAt (E : Expr → List Token → Prop) (power : Nat) (e : Expr)
    (read left : List Token) : Prop where
  spelled : E e read
  runs : e.span.Runs read
  fits : e.Fits left
  operator : ∀ top, e.operator? = some top → power ≤ top.power
  stops : Stops power left

/-- Whether an operand is read. -/
structure Expr.ReadOperand (E : Expr → List Token → Prop) (e : Expr)
    (read left : List Token) : Prop where
  spelled : E e read
  runs : e.span.Runs read
  fits : e.Fits left
  operator : e.operator? = none

theorem Expr.Fits.of_closed {e : Expr} (h : e.operator? = none) (h' : e.endsInNot = false)
    (left : List Token) : e.Fits left := by
  constructor <;> simp [h, h']

/-- What ends with a token of its own needs no operator to be kept out. -/
theorem Expr.ReadOperand.of_closed {E : Expr → List Token → Prop} {e : Expr}
    {read left : List Token} (h : e.span.Runs read → E e read) (hruns : e.span.Runs read)
    (hoperator : e.operator? = none) (hnot : e.endsInNot = false) : e.ReadOperand E read left :=
  ⟨h hruns, hruns, .of_closed hoperator hnot left, hoperator⟩

/-- Nothing but two tokens are looked at, and the ends of statements are alike. -/
theorem BinaryOperator.ofTokens?_semicolon (kind : TokenKind) :
    ofTokens? kind .semicolon = ofTokens? kind .eof := by
  cases kind with
  | keyword word => cases word <;> rfl
  | _ => rfl

theorem BinaryOperator.ofTokens?_eq_some {first second : TokenKind} {op : BinaryOperator}
    {width : Nat} (h : ofTokens? first second = some (op, width)) :
    first.endsStatement = false ∧
      (width = 1 ∧ op.words = [first] ∨
        width = 2 ∧ op.words = [first, second] ∧ second.endsStatement = false) := by
  unfold ofTokens? at h
  split at h <;> simp_all [TokenKind.endsStatement, words] <;> grind [words]

theorem ParserState.Extends.nextOperator?_eq {tail : List Token} {s s' : ParserState}
    (h : Extends tail s s') : nextOperator? s'.tokens = nextOperator? s.tokens := by
  unfold nextOperator?
  rw [h.tokens]
  match hs : s.tokens, tail with
  | [], [] => rfl
  | [], t :: ts =>
    have ht := h.head_kind
    simp [kindAhead, ht, BinaryOperator.ofTokens?]
  | [t], [] => rfl
  | [t], t' :: ts =>
    have ht := h.head_kind
    simp [kindAhead, ht, BinaryOperator.ofTokens?_semicolon]
  | _ :: _ :: _, _ => rfl

/-- Whether two parsers for what stands inside agree as long as fewer than `room`
tokens are left. -/
structure Nested.Agree (tail : List Token) (E : Expr → List Token → Prop)
    (S : Select → List Token → Prop) (inner inner' : Nested) (room : Nat) : Prop where
  expr : ∀ power s s', InStep tail s s' → s.tokens.length < room →
    Parser.Agree (inner.expr power) (inner'.expr power) s s' (Expr.ReadAt E power)
  select : ∀ s s', Extends tail s s' → s.tokens.length < room →
    Parser.Agree inner.select inner'.select s s' fun select read _ => S select read

section

variable {tail : List Token} {E : Expr → List Token → Prop} {S : Select → List Token → Prop}
  {inner inner' : Nested} {room : Nat} {s s' : ParserState}

theorem Nested.Agree.within (hin : Nested.Agree tail E S inner inner' room)
    (hs : s.tokens.length < room) (power : Nat) :
    Parser.AgreeWithin tail s (inner.expr power) (inner'.expr power) E := by
  intro u u' hu hlen
  have hagree := hin.expr power u u' hu (Nat.lt_of_le_of_lt hlen hs)
  exact hagree.mono fun _ _ _ h => h.spelled

namespace Parser

/-- Whether a literal is read. -/
inductive IsLiteral : Expr → List Token → Prop
  | mk {value t} :
      literalOf? t.kind = some value → IsLiteral (.constant { span := t.span } value) [t]

theorem literal?_agree (h : Extends tail s s') :
    Agree literal? literal? s s' fun e? read _ => Optional IsLiteral e? read := by
  refine .peek h (fun t ts hts => ?_) fun _ k hk => ?_
  · cases hvalue : literalOf? t.kind with
    | none => exact .pure .none
    | some value =>
      refine .bind_after (advance_agree h hts) ?_
      rintro _ _ u u' _ _ ⟨rfl, rfl, -⟩
      exact .pure (.some (.mk hvalue))
  · rcases hk with rfl | rfl <;> exact .pure .none

theorem bracketTerm_agree (rules : Rules E S) (hin : Nested.Agree tail E S inner inner' room)
    (h : Extends tail s s') (hs : s.tokens.length ≤ room) (hopen : s.kindAt 0 = .leftParen) :
    Agree (bracketTerm inner) (bracketTerm inner') s s' (Expr.ReadOperand E) := by
  apply Agree.advance h hopen rfl
  intro opening u u' hu hu' hopening
  have hlen := hu.length_succ
  have hroom : u.tokens.length < room := by omega
  refine .ifCheck hu'.toExtends rfl (fun _ => ?_) fun _ => ?_
  · apply Agree.bind hu' (hin.select u u' hu'.toExtends hroom)
    intro select read v v' hv hv' hread
    apply Agree.expect hv'.toExtends rfl
    intro closing w w' hw hw' hclosing
    refine .spanRead hw' ((hu.trans hv).trans hw) rfl fun span hspan => .pure ?_
    exact .of_closed (rules.subquery (.mk hopening hread hclosing)) hspan rfl rfl
  · apply Agree.bind hu' (commaSeparated_agree hu' (hin.within hroom 0))
    intro items read v v' hv hv' hread
    apply Agree.expect hv'.toExtends rfl
    intro closing w w' hw hw' hclosing
    refine .spanRead hw' ((hu.trans hv).trans hw) rfl fun span hspan => ?_
    cases hread with
    | mk hfirst hrest =>
    cases hrest with
    | nil =>
      rw [List.append_nil] at hspan ⊢
      exact .pure (.of_closed (rules.brackets (.mk hopening hfirst hclosing)) hspan rfl rfl)
    | cons hsecond hrest =>
      have hitems := CommaList.mk hfirst (.cons hsecond hrest)
      exact .pure (.of_closed (rules.list (.mk hopening (.items hitems) hclosing)) hspan rfl rfl)

theorem exprs_agree (hin : Nested.Agree tail E S inner inner' room) (h : InStep tail s s')
    (hs : s.tokens.length < room) {hint hint' : Hint} :
    Agree (under hint (commaSeparated (inner.expr 0))) (under hint' (commaSeparated (inner'.expr 0)))
      s s' fun es read _ => CommaList E es read :=
  .under h fun _ _ hu hlen => commaSeparated_agree hu (hin.within (Nat.lt_of_le_of_lt hlen hs) 0)

theorem call_agree (rules : Rules E S) (hin : Nested.Agree tail E S inner inner' room)
    (h : Extends tail s s') (hs : s.tokens.length ≤ room) (hopen : s.kindAt 0 = .leftParen)
    {function : Ident} {name : List Token} (hname : function.Spelled name) {before : ParserState}
    (hbefore : before.Took name s) :
    Agree (call inner function) (call inner' function) s s' fun e read left =>
      e.ReadOperand E (name ++ read) left := by
  obtain ⟨first, rfl, hfirst⟩ := hname.exists_span
  unfold call
  rw [hfirst]
  apply Agree.advance h hopen rfl
  intro opening u u' hu hu' hopening
  have hlen := hu.length_succ
  have hroom : u.tokens.length < room := by omega
  refine .ifCheck hu'.toExtends rfl (fun hstar => ?_) fun _ => ?_
  · apply Agree.advance hu'.toExtends hstar rfl
    intro star v v' hv hv' hstar
    apply Agree.expect hv'.toExtends rfl
    intro closing w w' hw hw' hclosing
    refine .spanRead hw' (((hbefore.trans hu).trans hv).trans hw) rfl fun span hspan => .pure ?_
    exact .of_closed (rules.callStar hname hopening hstar hclosing) hspan rfl rfl
  · refine .bind hu' (unlessClosing_agree hu' (.skip _ _ rfl rfl (exprs_agree hin hu' hroom)))
      fun args read v v' hv hv' hread => ?_
    apply Agree.expect hv'.toExtends rfl
    intro closing w w' hw hw' hclosing
    refine .spanRead hw' (((hbefore.trans hu).trans hv).trans hw) rfl fun span hspan => .pure ?_
    exact .of_closed (rules.call hname (.mk hopening hread hclosing)) hspan rfl rfl

theorem dots_agree (rules : Rules E S) (n : Nat) :
    ∀ n' s s', InStep tail s s' → s.tokens.length < n → s'.tokens.length < n' →
      ∀ e name, E e name → e.span.Runs name → e.operator? = none → e.endsInNot = false →
      Agree (dots n e) (dots n' e) s s' fun e read left => e.ReadOperand E (name ++ read) left := by
  induction n with
  | zero =>
    intro _ _ _ _ hn
    omega
  | succ n ih =>
    intro n' s s' h hn hn' e name he hruns hoperator hnot
    obtain ⟨n', rfl⟩ : ∃ m, n' = m + 1 := ⟨n' - 1, by omega⟩
    refine .ifEat h.toExtends rfl (fun point u u' hu hu' hpoint => ?_) fun _ => ?_
    · have hlen := hu.length_succ
      have hlens := h.length_eq
      have hlens' := hu'.length_eq
      refine .skip _ _ rfl rfl ?_
      apply Agree.bind hu' (.under hu' fun v v' hv _ => ident_agree hv.toExtends)
      intro right read v v' hv hv' hright
      have hlen' := hv.length_le
      have hlens'' := hv'.length_eq
      have hspan : (e.span.merge right.span).Runs (name ++ point :: read) := by
        simpa using hruns.merge hright.runs [point]
      have hdot : E (.dot { span := e.span.merge right.span } e right) (name ++ point :: read) :=
        rules.dot he hpoint hright hspan
      have hmore := ih n' v v' hv' (by omega) (by omega) _ _ hdot hspan rfl rfl
      apply hmore.mono
      intro _ more _ hread
      simpa using hread
    · rw [← List.append_nil name] at he hruns
      exact .pure (.of_closed (fun _ => he) hruns hoperator hnot)

theorem nameTerm_agree (rules : Rules E S) (hin : Nested.Agree tail E S inner inner' room)
    (h : InStep tail s s') (hs : s.tokens.length ≤ room) :
    Agree (nameTerm inner) (nameTerm inner') s s' (Expr.ReadOperand E) := by
  apply Agree.bind h (ident_agree h.toExtends)
  intro name read u u' hu hu' hname
  have hlen := hu.length_le
  refine .ifCheck hu'.toExtends rfl (fun hopen => ?_) fun _ => ?_
  · exact call_agree rules hin hu'.toExtends (by omega) hopen hname hu
  · refine .skip u u' rfl rfl ?_
    exact dots_agree rules _ _ u u' hu' (Nat.lt_succ_self _) (Nat.lt_succ_self _) _ _
      (rules.name hname hname.runs) hname.runs rfl rfl

/-- Whatever a sign stands before is no bare operation. -/
theorem signed_agree (hin : Nested.Agree tail E S inner inner' room)
    (h : InStep tail s s') (hs : s.tokens.length < room) :
    Agree (inner.expr BinaryOperator.signPower) (inner'.expr BinaryOperator.signPower) s s'
      (Expr.ReadOperand E) := by
  refine (hin.expr _ s s' h hs).mono fun e read left he => ⟨he.spelled, he.runs, he.fits, ?_⟩
  cases htop : e.operator? with
  | none => rfl
  | some top =>
    have := he.operator top htop
    have := top.power_lt_signPower
    omega

theorem minusTerm_agree (rules : Rules E S) (hin : Nested.Agree tail E S inner inner' room)
    (h : Extends tail s s') (hs : s.tokens.length ≤ room) (hminus : s.kindAt 0 = .minus) :
    Agree (minusTerm inner) (minusTerm inner') s s' (Expr.ReadOperand E) := by
  apply Agree.advance h hminus rfl
  intro sign u u' hu hu' hsign
  have hlen := hu.length_succ
  apply Agree.bind hu' (signed_agree hin hu' (by omega))
  intro e read v v' _ _ he
  have hruns := he.runs.signed sign
  have hunary : E (.unary { span := sign.span.merge e.span } .negate e) (sign :: read) :=
    rules.unary hsign he.spelled he.operator hruns
  rw [← List.append_nil read] at hruns hunary
  refine .pure ⟨hunary, hruns, ⟨by simp [Expr.operator?], fun hnot => ?_⟩, rfl⟩
  exact he.fits.endsInNot hnot

theorem plusTerm_agree (rules : Rules E S) (hin : Nested.Agree tail E S inner inner' room)
    (h : Extends tail s s') (hs : s.tokens.length ≤ room) (hplus : s.kindAt 0 = .plus) :
    Agree (plusTerm inner) (plusTerm inner') s s' (Expr.ReadOperand E) := by
  apply Agree.advance h hplus rfl
  intro sign u u' hu hu' hsign
  have hlen := hu.length_succ
  apply Agree.bind hu' (signed_agree hin hu' (by omega))
  intro e read v v' _ _ he
  have hruns := he.runs.signed sign
  have hplus : E (e.withNote { e.note with span := sign.span.merge e.span }) (sign :: read) :=
    rules.plus hsign he.spelled he.operator hruns
  refine .pure ⟨by simpa using hplus, by simpa [Expr.span] using hruns,
    ⟨by simp [he.operator], fun hnot => ?_⟩, by simpa using he.operator⟩
  exact he.fits.endsInNot (by simpa using hnot)

theorem notTerm_agree (rules : Rules E S) (hin : Nested.Agree tail E S inner inner' room)
    (h : Extends tail s s') (hs : s.tokens.length ≤ room) (hword : s.kindAt 0 = .keyword .NOT) :
    Agree (notTerm inner) (notTerm inner') s s' (Expr.ReadOperand E) := by
  apply Agree.advance h hword rfl
  intro sign u u' hu hu' hsign
  have hlen := hu.length_succ
  apply Agree.bind hu' (hin.expr _ u u' hu' (by omega))
  intro e read v v' _ _ he
  -- The operand is read with the power of `NOT`, which is above those of `OR` and `AND`.
  have hgrouped : (Expr.unary { span := sign.span.merge e.span } .not e).IsGrouped :=
    ⟨fun h => absurd (he.operator _ h) (by decide), fun h => absurd (he.operator _ h) (by decide)⟩
  have hruns := he.runs.signed sign
  have hunary : E (.unary { span := sign.span.merge e.span } .not e) (sign :: read) :=
    rules.unary hsign he.spelled hgrouped hruns
  rw [← List.append_nil read] at hruns hunary
  exact .pure ⟨hunary, hruns, ⟨by simp [Expr.operator?], fun _ => he.stops⟩, rfl⟩

theorem operand_agree (rules : Rules E S) (hin : Nested.Agree tail E S inner inner' room)
    (h : InStep tail s s') (hs : s.tokens.length ≤ room) :
    Agree (operand inner) (operand inner') s s' (Expr.ReadOperand E) := by
  refine .bind h (literal?_agree h.toExtends) fun e? read u u' hu hu' hread => ?_
  have hlen := hu.length_le
  cases hread with
  | some hliteral =>
    obtain ⟨hvalue⟩ := hliteral
    exact .pure (.of_closed (rules.constant hvalue) (.singleton _) rfl rfl)
  | none =>
    refine .peek hu'.toExtends (fun t ts hts => ?_) fun _ k hk => ?_
    · have hkind : u.kindAt 0 = t.kind := by simp [ParserState.kindAt, hts]
      split <;> rename_i hkind'
      · exact minusTerm_agree rules hin hu'.toExtends (by omega) (hkind.trans hkind')
      · exact plusTerm_agree rules hin hu'.toExtends (by omega) (hkind.trans hkind')
      · exact notTerm_agree rules hin hu'.toExtends (by omega) (hkind.trans hkind')
      · exact bracketTerm_agree rules hin hu'.toExtends (by omega) (hkind.trans hkind')
      · cases hname : isNameStart t.kind with
        | true => exact nameTerm_agree rules hin hu' (by omega)
        | false => exact .failExpected _
    · rcases hk with rfl | rfl <;> exact .failExpected _

theorem memberList_agree (rules : Rules E S) (hin : Nested.Agree tail E S inner inner' room)
    (h : Extends tail s s') (hs : s.tokens.length ≤ room) (hopen : s.kindAt 0 = .leftParen) :
    Agree (memberList inner) (memberList inner') s s' (Expr.ReadOperand E) := by
  apply Agree.advance h hopen rfl
  intro opening u u' hu hu' hopening
  have hlen := hu.length_succ
  have hroom : u.tokens.length < room := by omega
  refine .ifCheck hu'.toExtends rfl (fun _ => ?_) fun _ => ?_
  · apply Agree.bind hu' (hin.select u u' hu'.toExtends hroom)
    intro select read v v' hv hv' hread
    apply Agree.expect hv'.toExtends rfl
    intro closing w w' hw hw' hclosing
    refine .spanRead hw' ((hu.trans hv).trans hw) rfl fun span hspan => .pure ?_
    exact .of_closed (rules.subquery (.mk hopening hread hclosing)) hspan rfl rfl
  · refine .bind hu' (unlessClosing_agree hu' (.skip _ _ rfl rfl (exprs_agree hin hu' hroom)))
      fun items read v v' hv hv' hread => ?_
    apply Agree.expect hv'.toExtends rfl
    intro closing w w' hw hw' hclosing
    refine .spanRead hw' ((hu.trans hv).trans hw) rfl fun span hspan => .pure ?_
    exact .of_closed (rules.list (.mk hopening hread hclosing)) hspan rfl rfl

/-- No operator binds more tightly than `IN`, so that none may follow its list. -/
theorem members_agree (rules : Rules E S) (hin : Nested.Agree tail E S inner inner' room)
    (h : InStep tail s s') (hs : s.tokens.length < room) {power : Nat}
    (hpower : ∀ op : BinaryOperator, op.power < power) :
    Agree (members inner power) (members inner' power) s s' (Expr.ReadAt E power) := by
  refine .ifCheck h.toExtends rfl (fun hopen => ?_) fun _ => hin.expr power s s' h hs
  apply (memberList_agree rules hin h.toExtends (by omega) hopen).mono
  intro e read left he
  exact ⟨he.spelled, he.runs, he.fits, by simp [he.operator], fun op _ _ => hpower op⟩

/-- The operator that follows takes what is read as its left operand. -/
theorem binary_readAt (rules : Rules E S) {left right : Expr} {op : BinaryOperator} {width : Nat}
    {ts words us rest : List Token} (hleft : E left ts) (hruns : left.span.Runs ts)
    (hfits : left.Fits (words ++ us ++ rest))
    (hnext : nextOperator? (words ++ us ++ rest) = some (op, width))
    (hwords : words.map Token.kind = op.words) (hright : right.ReadAt E (op.power + 1) us rest) :
    E (left.binaryOf op right) (ts ++ words ++ us) ∧
      (left.binaryOf op right).span.Runs (ts ++ words ++ us) ∧
        (left.binaryOf op right).Fits rest := by
  have hgrouped : (left.binaryOf op right).IsGrouped := by
    refine ⟨?_, ?_, ?_⟩
    · intro inner hinner
      have hlt := hfits.operator inner hinner op width hnext
      exact (op.power_le_power_iff inner).mp (Nat.le_of_lt_succ hlt)
    · intro inner hinner
      exact (op.power_lt_power_iff inner).mp (hright.operator inner hinner)
    · intro hnot
      exact op.power_lt_notPower_iff.mp (hfits.endsInNot hnot op width hnext)
  have hspan : (left.binaryOf op right).span.Runs (ts ++ words ++ us) :=
    hruns.merge hright.runs words
  refine ⟨rules.binary hleft hwords hright.spelled hgrouped hspan, hspan, ?_, ?_⟩
  · rintro top ⟨⟩
    exact hright.stops
  · exact hright.fits.endsInNot

theorem operatorWords_agree (h : InStep tail s s') {op : BinaryOperator} {width : Nat}
    (hnext : nextOperator? s.tokens = some (op, width)) :
    Agree (operatorWords width) (operatorWords width) s s' fun _ words _ =>
      words.map Token.kind = op.words := by
  obtain ⟨hfirst, hwidth⟩ := BinaryOperator.ofTokens?_eq_some hnext
  apply Agree.advance h.toExtends rfl hfirst
  intro first u u' hu hu' hkind
  rcases hwidth with ⟨rfl, hwords⟩ | ⟨rfl, hwords, hsecond⟩
  · exact .pure (by simp [hwords, hkind, kindAt_eq])
  · apply Agree.advance hu'.toExtends (hu.kindAt_eq 0).symm hsecond
    intro second v v' _ _ hkind'
    apply Agree.pure
    simp [hwords, hkind, hkind', kindAt_eq]

theorem rightOperand_agree (rules : Rules E S) (hin : Nested.Agree tail E S inner inner' room)
    (h : InStep tail s s') (hs : s.tokens.length < room) (op : BinaryOperator) :
    Agree (rightOperand inner op) (rightOperand inner' op) s s' (Expr.ReadAt E (op.power + 1)) := by
  unfold rightOperand
  split
  · rename_i hmember
    exact members_agree rules hin h hs fun op' =>
      Nat.lt_succ_of_le (BinaryOperator.power_le_of_isMembership hmember op')
  · exact hin.expr _ s s' h hs

theorem operations_agree (rules : Rules E S) (hin : Nested.Agree tail E S inner inner' room)
    (power n : Nat) :
    ∀ n' s s', InStep tail s s' → s.tokens.length < n → s'.tokens.length < n' →
      s.tokens.length ≤ room →
      ∀ left name, E left name → left.span.Runs name → left.Fits s.tokens →
      (∀ top, left.operator? = some top → power ≤ top.power) →
      Agree (operations inner power n left) (operations inner' power n' left) s s'
        fun e read rest => e.ReadAt E power (name ++ read) rest := by
  induction n with
  | zero =>
    intro _ _ _ _ hn
    omega
  | succ n ih =>
    intro n' s s' h hn hn' hs left name hleft hruns hfits hoperator
    obtain ⟨n', rfl⟩ : ∃ m, n' = m + 1 := ⟨n' - 1, by omega⟩
    have hlens := h.length_eq
    have hnext' := h.nextOperator?_eq
    unfold operations
    refine .skip (s.kindAt 0) (s'.kindAt 0) rfl rfl (.skip (s.kindAt 1) (s'.kindAt 1) rfl rfl ?_)
    rw [show BinaryOperator.ofTokens? (s'.kindAt 0) (s'.kindAt 1) =
      BinaryOperator.ofTokens? (s.kindAt 0) (s.kindAt 1) from hnext']
    cases hnext : BinaryOperator.ofTokens? (s.kindAt 0) (s.kindAt 1) with
    | none =>
      rw [← List.append_nil name] at hleft hruns
      exact .pure ⟨hleft, hruns, hfits, hoperator,
        fun op width h => absurd (hnext.symm.trans h) nofun⟩
    | some next =>
      obtain ⟨op, width⟩ := next
      dsimp only
      split
      · rename_i hloose
        rw [← List.append_nil name] at hleft hruns
        refine .pure ⟨hleft, hruns, hfits, hoperator, fun op' width' h => ?_⟩
        obtain ⟨rfl, rfl⟩ : op = op' ∧ width = width' := by simpa using hnext.symm.trans h
        exact hloose
      -- What is built becomes the left operand of the next round.
      · apply Agree.bind h (operatorWords_agree h hnext)
        intro _ words u u' hu hu' hwords
        have hlen := hu.length_eq
        have hpos := op.length_words_pos
        rw [← hwords, List.length_map] at hpos
        apply Agree.bind hu' (rightOperand_agree rules hin hu' (by omega) op)
        intro right read v v' hv hv' hright
        have htokens : s.tokens = words ++ read ++ v.tokens := by
          rw [hu.tokens, hv.tokens, List.append_assoc]
        have hnext : nextOperator? s.tokens = some (op, width) := hnext
        rw [htokens] at hfits hnext
        obtain ⟨hbinary, hspan, hfits⟩ :=
          binary_readAt rules hleft hruns hfits hnext hwords hright
        have hlens' := hv'.length_eq
        have hlen' := hv.length_le
        refine (ih n' v v' hv' (by omega) (by omega) (by omega) _ _ hbinary hspan hfits ?_).mono
          fun _ more rest he => ?_
        · rintro top ⟨⟩
          omega
        · simpa using he

theorem exprWith_agree (rules : Rules E S) (hin : Nested.Agree tail E S inner inner' room)
    (h : InStep tail s s') (hs : s.tokens.length ≤ room) (power : Nat) :
    Agree (exprWith inner power) (exprWith inner' power) s s' (Expr.ReadAt E power) := by
  apply Agree.bind h (operand_agree rules hin h hs)
  intro left read u u' hu hu' hleft
  have hlen := hu.length_le
  refine .skip u u' rfl rfl ?_
  exact operations_agree rules hin power _ _ u u' hu' (Nat.lt_succ_self _) (Nat.lt_succ_self _)
    (by omega) left read hleft.spelled hleft.runs hleft.fits (by simp [hleft.operator])

end Parser

end

end SqlAnalysis

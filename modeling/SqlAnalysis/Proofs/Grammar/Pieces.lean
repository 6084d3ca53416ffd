import SqlAnalysis.Proofs.Grammar.Lockstep

/-!
# The small parsers in step

For every parser that the grammar is built from: two runs of it agree, and what
it reads is the piece of a token list it stands for. The parsers that repeat
others count their rounds by the tokens that are left, which are more in one run
than in the other; each round reads a token, so both counts are enough.
-/
namespace SqlAnalysis.Parser

open ParserState

variable {α β : Type} {tail : List Token} {s s' : ParserState} {kind : TokenKind}
  {P : α → List Token → Prop} {R : β → List Token → List Token → Prop}

theorem expect_agree (h : Extends tail s s') (hk : kind.endsStatement = false) (what : String) :
    Agree (expect kind what) (expect kind what) s s' fun t read _ =>
      t.kind = kind ∧ read = [t] := by
  refine .ifCheck h hk (fun hs => ?_) fun _ => .failExpected what
  obtain ⟨t, ts, hts, ht⟩ := exists_of_kindAt hs hk
  refine (advance_agree h hts).mono ?_
  rintro _ _ _ ⟨rfl, rfl, -⟩
  exact ⟨ht, rfl⟩

theorem eat_agree (h : Extends tail s s') (hk : kind.endsStatement = false) :
    Agree (eat kind) (eat kind) s s' fun b read _ =>
      read.map Token.kind = if b then [kind] else [] := by
  refine .ifCheck h hk (fun hs => ?_) fun _ => .pure rfl
  apply Agree.advance h hs hk
  intro t u u' _ _ ht
  apply Agree.pure
  simp [ht]

namespace Agree

/-- Reads a token that must be there. -/
theorem expect {f f' : Token → Parser β} (h : Extends tail s s') (hk : kind.endsStatement = false)
    {what : String}
    (hf : ∀ t u u', s.Took [t] u → InStep tail u u' → t.kind = kind →
      Agree (f t) (f' t) u u' fun b more left => R b (t :: more) left) :
    Agree (Parser.expect kind what >>= f) (Parser.expect kind what >>= f') s s' R := by
  refine bind_read h (expect_agree h hk what) ?_ ?_
  · rintro t _ _ ⟨-, rfl⟩
    exact List.cons_ne_nil _ _
  · rintro t _ u u' hu hu' ⟨ht, rfl⟩
    exact hf t u u' hu hu' ht

/-- Both runs see the same next token, or the end of the statement. -/
theorem current {f f' : Token → Parser β} (h : Extends tail s s')
    (hin : ∀ t ts, s.tokens = t :: ts → Agree (f t) (f' t) s s' R)
    (hout : s.tokens = [] → ∀ t t' : Token, t.kind = .eof → t'.kind = .eof ∨ t'.kind = .semicolon →
      Agree (f t) (f' t') s s' R) :
    Agree (Parser.current >>= f) (Parser.current >>= f') s s' R := by
  refine skip s.current s'.current rfl rfl ?_
  cases hs : s.tokens with
  | cons t ts =>
    have hs' : s'.tokens = t :: (ts ++ tail) := by rw [h.tokens, hs, List.cons_append]
    simpa [ParserState.current, hs, hs'] using hin t ts hs
  | nil =>
    refine hout hs _ _ (by simp [ParserState.current, hs, h.final]) ?_
    have htokens := h.tokens
    cases tail with
    | nil => exact .inl (by simp [ParserState.current, htokens, hs, h.final'])
    | cons t ts => exact .inr (by simpa [ParserState.current, htokens, hs] using h.head_kind)

theorem peek {f f' : TokenKind → Parser β} (h : Extends tail s s')
    (hin : ∀ t ts, s.tokens = t :: ts → Agree (f t.kind) (f' t.kind) s s' R)
    (hout : s.tokens = [] → ∀ k, k = .eof ∨ k = .semicolon → Agree (f .eof) (f' k) s s' R) :
    Agree (Parser.peek >>= f) (Parser.peek >>= f') s s' R := by
  refine skip (s.kindAt 0) (s'.kindAt 0) rfl rfl ?_
  cases hs : s.tokens with
  | cons t ts =>
    have hs' : s'.tokens = t :: (ts ++ tail) := by rw [h.tokens, hs, List.cons_append]
    simpa [ParserState.kindAt, hs, hs'] using hin t ts hs
  | nil =>
    have htokens := h.tokens
    simp only [ParserState.kindAt, htokens, hs]
    refine hout hs _ ?_
    cases tail with
    | nil => exact .inl rfl
    | cons t ts => exact .inr h.head_kind

/-- What begins a piece is the same token in both runs, if the piece has any. -/
theorem start {f f' : Token → Parser β} (h : Extends tail s s')
    (hf : ∀ t t', (s.tokens ≠ [] → t = t') → Agree (f t) (f' t') s s' R) :
    Agree (Parser.current >>= f) (Parser.current >>= f') s s' R := by
  apply current h (fun t _ _ => hf t t fun _ => rfl)
  intro hs t t' _ _
  exact hf t t' fun hne => absurd hs hne

theorem spanFrom {f f' : Span → Parser β} (h : InStep tail s s') {start : Span}
    (hf : ∀ span, Agree (f span) (f' span) s s' R) :
    Agree (Parser.spanFrom start >>= f) (Parser.spanFrom start >>= f') s s' R := by
  refine skip ⟨start.start, max s.lastSpan.stop start.stop⟩ _ rfl ?_ (hf _)
  rw [← h.lastSpan]
  rfl

/-- The span of all that was read since an earlier state. -/
theorem spanRead {f f' : Span → Parser β} {before : ParserState} {read : List Token}
    {first : Token} (h : InStep tail s s') (hread : before.Took read s)
    (hfirst : first ∈ read.head?)
    (hf : ∀ span, Span.Runs span read → Agree (f span) (f' span) s s' R) :
    Agree (Parser.spanFrom first.span >>= f) (Parser.spanFrom first.span >>= f') s s' R := by
  refine skip ⟨first.span.start, max s.lastSpan.stop first.span.stop⟩ _ rfl ?_
    (hf _ (hread.runs hfirst))
  rw [← h.lastSpan]
  rfl

/-- Looking for two kinds in a row. -/
theorem ifBoth {second : TokenKind} {yes yes' no no' : Parser β} (h : Extends tail s s')
    (hk : kind.endsStatement = false) (hk' : second.endsStatement = false)
    (hyes : s.kindAt 0 = kind → s.kindAt 1 = second → Agree yes yes' s s' R)
    (hno : Agree no no' s s' R) :
    Agree
      (Parser.check kind >>= fun b => peekAt 1 >>= fun k => if b && k == second then yes else no)
      (Parser.check kind >>= fun b => peekAt 1 >>= fun k => if b && k == second then yes' else no')
      s s' R := by
  refine check h hk fun b hb => skip (s.kindAt 1) (s'.kindAt 1) rfl rfl ?_
  cases b with
  | false => exact hno
  | true =>
    obtain ⟨t, ts, hts, -⟩ := exists_of_kindAt (hb.mp rfl) hk
    have hiff : s'.kindAt 1 = second ↔ s.kindAt 1 = second := h.kindAt_eq_iff (by simp [hts]) hk'
    simp only [Bool.true_and, beq_iff_eq, hiff]
    split
    · exact hyes (hb.mp rfl) ‹_›
    · exact hno

/-- Hints are not looked at. -/
theorem under {p p' : Parser α} {Q : α → List Token → List Token → Prop} (h : InStep tail s s')
    {hint hint' : Hint}
    (hp : ∀ u u', InStep tail u u' → u.tokens.length ≤ s.tokens.length → Agree p p' u u' Q) :
    Agree (Parser.under hint p) (Parser.under hint' p') s s' Q := by
  have hp := hp { s with hints := [] } { s' with hints := [] }
    ⟨⟨h.ends, h.tokens, h.final, h.final'⟩, h.lastSpan⟩ (Nat.le_refl _)
  unfold Agree at hp ⊢
  rw [run_under, run_under]
  rcases hr : p.run { s with hints := [] } with ⟨result, u⟩
  rcases hr' : p'.run { s' with hints := [] } with ⟨result', u'⟩
  rw [hr, hr'] at hp
  cases hp with
  | ok hu hu' hQ =>
    exact .ok ⟨hu.tokens, hu.final, hu.lastSpan⟩ ⟨hu'.tokens, hu'.final, hu'.lastSpan⟩ hQ
  | error hu hu' hd hd' =>
    exact .error ⟨hu.tokens, hu.final, hu.lastSpan⟩ ⟨hu'.tokens, hu'.final, hu'.lastSpan⟩ hd hd'

end Agree

/-- Whether two parsers agree and read `P` wherever no more tokens are left than at `s`. -/
def AgreeWithin (tail : List Token) (s : ParserState) (p p' : Parser α)
    (P : α → List Token → Prop) : Prop :=
  ∀ u u', InStep tail u u' → u.tokens.length ≤ s.tokens.length →
    Agree p p' u u' fun a read _ => P a read

section

variable {p p' : Parser α}

theorem AgreeWithin.after {read : List Token} {u : ParserState} (hp : AgreeWithin tail s p p' P)
    (hu : s.Took read u) : AgreeWithin tail u p p' P :=
  fun v v' hv hlen => hp v v' hv (Nat.le_trans hlen hu.length_le)

theorem after_agree (h : InStep tail s s') (hk : kind.endsStatement = false)
    (hp : AgreeWithin tail s p p' P) :
    Agree (after kind p) (after kind p') s s' fun a? read _ =>
      Optional (Preceded kind P) a? read := by
  refine .ifEat h.toExtends hk (fun t u u' hu hu' ht => ?_) fun _ => .pure .none
  apply Agree.bind hu' (hp u u' hu' hu.length_le)
  intro a read v v' _ _ hP
  apply Agree.pure
  simpa using Optional.some (Preceded.mk ht hP)

theorem afterWord_agree (h : InStep tail s s') (word : Keyword) (hp : AgreeWithin tail s p p' P) :
    Agree (afterWord word p) (afterWord word p') s s' fun a? read _ =>
      Optional (Preceded (.keyword word) P) a? read :=
  after_agree h rfl hp

theorem manyUpTo_agree {p p' : Parser (Option α)} (hP : ∀ a read, P a read → read ≠ []) (n : Nat) :
    ∀ n' s s', InStep tail s s' → s.tokens.length < n → s'.tokens.length < n' →
      AgreeWithin tail s p p' (Optional P) →
      Agree (manyUpTo p n) (manyUpTo p' n') s s' fun as read _ => Sequence P as read := by
  induction n with
  | zero =>
    intro _ _ _ _ hn
    omega
  | succ n ih =>
    intro n' s s' h hn hn' hp
    obtain ⟨n', rfl⟩ : ∃ m, n' = m + 1 := ⟨n' - 1, by omega⟩
    unfold manyUpTo
    refine .bind_after (hp s s' h (Nat.le_refl _)) fun a? read u u' hu hu' hopt => ?_
    cases hopt with
    | none => exact .pure .nil
    | @some a _ ha =>
      have hread := List.length_pos_iff.mpr (hP a read ha)
      have hlen := hu.length_eq
      have hlen' := hu'.length_eq
      have hrest := ih n' u u' (h.after hu hu') (by omega) (by omega) (hp.after hu)
      apply Agree.bind (h.after hu hu') hrest
      intro as more v v' _ _ hseq
      apply Agree.pure
      simpa using Sequence.cons ha hseq

theorem many_agree {p p' : Parser (Option α)} (h : InStep tail s s')
    (hP : ∀ a read, P a read → read ≠ []) (hp : AgreeWithin tail s p p' (Optional P)) :
    Agree (many p) (many p') s s' fun as read _ => Sequence P as read := by
  refine .skip s s' rfl rfl ?_
  exact manyUpTo_agree hP _ _ s s' h (Nat.lt_succ_self _) (Nat.lt_succ_self _) hp

theorem commaSeparated_agree (h : InStep tail s s') (hp : AgreeWithin tail s p p' P) :
    Agree (commaSeparated p) (commaSeparated p') s s' fun as read _ => CommaList P as read := by
  apply Agree.bind h (hp s s' h (Nat.le_refl _))
  intro a read u u' hu hu' ha
  have hafter : AgreeWithin tail u (after .comma p) (after .comma p')
      (Optional (Preceded .comma P)) :=
    fun v v' hv hlen => after_agree hv rfl fun w w' hw hlen' =>
      hp.after hu w w' hw (Nat.le_trans hlen' hlen)
  apply Agree.bind hu' (many_agree hu' (fun _ _ => Preceded.ne_nil) hafter)
  intro as more v v' _ _ hseq
  apply Agree.pure
  simpa using CommaList.mk ha hseq

theorem unlessClosing_agree {p p' : Parser (List α)} (h : InStep tail s s')
    (hp : Agree p p' s s' fun as read _ => CommaList P as read) :
    Agree (unlessClosing p) (unlessClosing p') s s' fun as read _ => Listed P as read := by
  refine .ifCheck h.toExtends rfl (fun _ => .pure .empty) fun _ => ?_
  exact hp.mono fun _ _ _ => .items

end

/-! ### Names -/

theorem ident_agree (h : Extends tail s s') :
    Agree ident ident s s' fun name read _ => name.Spelled read := by
  refine .current h (fun t ts hts => ?_) fun _ t t' ht ht' => ?_
  · cases hname : nameOf? t.kind with
    | none => exact .failExpected _
    | some name =>
      refine .bind_after (advance_agree h hts) ?_
      rintro _ _ u u' _ _ ⟨-, rfl, -⟩
      exact .pure (.mk hname rfl)
  · rw [ht]
    rcases ht' with ht' | ht' <;> rw [ht'] <;> exact .failExpected _

theorem identList_agree (h : Extends tail s s') :
    Agree identList identList s s' fun names read _ =>
      Bracketed (CommaList Ident.Spelled) names read := by
  apply Agree.expect h rfl
  intro opening u u' hu hu' hopening
  have hnames := commaSeparated_agree hu' fun v v' hv _ => ident_agree hv.toExtends
  apply Agree.bind hu' hnames
  intro names read v v' hv hv' hread
  apply Agree.expect hv'.toExtends rfl
  intro closing w w' _ _ hclosing
  apply Agree.pure
  simpa using Bracketed.mk hopening hread hclosing

theorem alias?_agree (h : InStep tail s s') :
    Agree alias? alias? s s' fun label read _ => AliasSpelled label read := by
  refine .ifEat h.toExtends rfl (fun mark u u' _ hu' hmark => ?_) fun _ => ?_
  · apply Agree.bind hu' (ident_agree hu'.toExtends)
    intro name read v v' _ _ hname
    apply Agree.pure
    simpa using AliasSpelled.marked hmark hname
  · refine .peek h.toExtends (fun t ts hts => ?_) fun _ k hk => ?_
    · cases hown : isOwnName t.kind with
      | false => exact .pure .none
      | true =>
        apply Agree.bind h (ident_agree h.toExtends)
        intro name read u u' hu _ hname
        apply Agree.pure
        obtain ⟨x, rfl⟩ := hname.eq_singleton
        have hx : x = t := (List.cons.inj (hts.symm.trans hu.tokens)).1.symm
        simpa using AliasSpelled.plain (hx ▸ hown) hname
    · rcases hk with rfl | rfl <;> exact .pure .none

end SqlAnalysis.Parser

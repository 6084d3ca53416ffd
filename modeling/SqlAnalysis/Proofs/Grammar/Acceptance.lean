import Mathlib.Data.List.Forall2
import SqlAnalysis.Proofs.Grammar.Isolation
import SqlAnalysis.Proofs.Syntax.Words

/-!
# Tokens that parsers accept

A parser accepts the kinds of some tokens if it reads these tokens, wherever they stand,
and gives something with a property. Only kinds are looked at: where a token stands does
not matter for whether it is accepted.
-/
namespace SqlAnalysis

/-- The kinds of the tokens that are left. -/
def ParserState.kinds (s : ParserState) : List TokenKind :=
  s.tokens.map Token.kind

/-- The kind that comes first, the end of the text if there is none. -/
def headKind (ks : List TokenKind) : TokenKind := ks.headD .eof

namespace ParserState

variable {s : ParserState} {k : TokenKind} {ks : List TokenKind}

theorem kindAt_kinds (s : ParserState) (n : Nat) : s.kindAt n = s.kinds.getD n .eof := by
  unfold kindAt kinds
  rw [List.getD_eq_getElem?_getD, List.getElem?_map]
  cases s.tokens[n]? <;> rfl

theorem kindAt_zero (s : ParserState) : s.kindAt 0 = headKind s.kinds := by
  unfold kindAt kinds headKind
  cases s.tokens <;> rfl

theorem length_kinds (s : ParserState) : s.kinds.length = s.tokens.length :=
  List.length_map _

theorem exists_of_kinds (h : s.kinds = k :: ks) :
    ∃ t ts, s.tokens = t :: ts ∧ t.kind = k ∧ ts.map Token.kind = ks := by
  unfold kinds at h
  cases hs : s.tokens with
  | nil => simp [hs] at h
  | cons t ts =>
    rw [hs, List.map_cons] at h
    exact ⟨t, ts, rfl, List.cons.inj h⟩

theorem current_kind (h : s.kinds = k :: ks) : s.current.kind = k := by
  obtain ⟨t, ts, hts, ht, -⟩ := exists_of_kinds h
  rw [ParserState.current, hts]
  exact ht

theorem kinds_advance (h : s.kinds = k :: ks) : s.advance.kinds = ks := by
  obtain ⟨t, ts, hts, -, hks⟩ := exists_of_kinds h
  simpa [kinds, ParserState.advance, hts] using hks

end ParserState

namespace Parser

/-- Whether a parser reads tokens of some kinds up to those that are left, and what it
gives has a property. -/
def Accepts {α : Type} (p : Parser α) (ks left : List TokenKind) (Q : α → Prop) : Prop :=
  ∀ s : ParserState, s.kinds = ks → ∃ a s', p.run s = (.ok a, s') ∧ s'.kinds = left ∧ Q a

namespace Accepts

variable {α β : Type} {p : Parser α} {f : α → Parser β} {Q : α → Prop} {R : β → Prop}
  {k : TokenKind} {ks mid left : List TokenKind}

theorem pure {a : α} (h : Q a) : Accepts (pure a) ks ks Q :=
  fun s hs => ⟨a, s, rfl, hs, h⟩

theorem bind (hp : Accepts p ks mid Q) (hf : ∀ a, Q a → Accepts (f a) mid left R) :
    Accepts (p >>= f) ks left R := by
  intro s hs
  obtain ⟨a, u, hrun, hu, ha⟩ := hp s hs
  obtain ⟨b, v, hrun', hv, hb⟩ := hf a ha u hu
  exact ⟨b, v, by rw [run_bind, hrun]; exact hrun', hv, hb⟩

theorem mono (h : Accepts p ks left Q) {Q' : α → Prop} (himp : ∀ a, Q a → Q' a) :
    Accepts p ks left Q' := by
  intro s hs
  obtain ⟨a, u, hrun, hu, ha⟩ := h s hs
  exact ⟨a, u, hrun, hu, himp a ha⟩

/-- A parser that depends on the state is known at states with these kinds only. -/
theorem get {f : ParserState → Parser β} (hf : ∀ s, s.kinds = ks → Accepts (f s) ks left R) :
    Accepts (get >>= f) ks left R :=
  fun s hs => hf s hs s hs

theorem peek {f : TokenKind → Parser β} (h : Accepts (f (headKind ks)) ks left R) :
    Accepts (Parser.peek >>= f) ks left R := by
  intro s hs
  obtain ⟨b, v, hrun, hv, hb⟩ := h s hs
  refine ⟨b, v, ?_, hv, hb⟩
  rw [← hs, ← s.kindAt_zero] at hrun
  exact hrun

theorem peekAt {n : Nat} {f : TokenKind → Parser β}
    (h : Accepts (f (ks.getD n .eof)) ks left R) : Accepts (Parser.peekAt n >>= f) ks left R := by
  intro s hs
  obtain ⟨b, v, hrun, hv, hb⟩ := h s hs
  refine ⟨b, v, ?_, hv, hb⟩
  rw [← hs, ← s.kindAt_kinds] at hrun
  exact hrun

theorem check {f : Bool → Parser β} (h : Accepts (f (decide (headKind ks = k))) ks left R) :
    Accepts (Parser.check k >>= f) ks left R := by
  unfold Parser.check
  rw [bind_assoc]
  exact .peek h

/-- A kind that comes first is seen. -/
theorem check_head {f : Bool → Parser β} (h : Accepts (f true) (k :: ks) left R) :
    Accepts (Parser.check k >>= f) (k :: ks) left R :=
  .check (by simpa [headKind] using h)

theorem check_other {f : Bool → Parser β} (hk : headKind ks ≠ k)
    (h : Accepts (f false) ks left R) : Accepts (Parser.check k >>= f) ks left R :=
  .check (by simpa [hk] using h)

end Accepts

section

variable {α : Type} {p : Parser α} {Q : α → Prop} {k : TokenKind} {ks left : List TokenKind}

theorem current_accepts : Accepts current (k :: ks) (k :: ks) fun t => t.kind = k :=
  fun s hs => ⟨s.current, s, rfl, hs, ParserState.current_kind hs⟩

theorem current_accepts_any : Accepts current ks ks fun _ => True :=
  fun s hs => ⟨s.current, s, rfl, hs, trivial⟩

theorem advance_accepts : Accepts advance (k :: ks) ks fun t => t.kind = k :=
  fun s hs => ⟨s.current, s.advance, rfl, ParserState.kinds_advance hs, ParserState.current_kind hs⟩

theorem expect_accepts (what : String) : Accepts (expect k what) (k :: ks) ks fun t => t.kind = k :=
  .check_head advance_accepts

theorem eat_accepts : Accepts (eat k) (k :: ks) ks (· = true) :=
  .check_head (advance_accepts.bind fun _ _ => .pure rfl)

theorem eat_passes (h : headKind ks ≠ k) : Accepts (eat k) ks ks (· = false) :=
  .check_other h (.pure rfl)

theorem Accepts.eat_head {β : Type} {f : Bool → Parser β} {R : β → Prop}
    (h : Accepts (f true) ks left R) : Accepts (eat k >>= f) (k :: ks) left R := by
  refine eat_accepts.bind fun b hb => ?_
  rw [hb]
  exact h

theorem Accepts.eat_other {β : Type} {f : Bool → Parser β} {R : β → Prop} (hk : headKind ks ≠ k)
    (h : Accepts (f false) ks left R) : Accepts (eat k >>= f) ks left R := by
  refine (eat_passes hk).bind fun b hb => ?_
  rw [hb]
  exact h

theorem spanFrom_accepts (start : Span) : Accepts (spanFrom start) ks ks fun _ => True :=
  .get fun _ _ => .pure trivial

theorem hint_accepts : Accepts hint ks ks fun _ => True :=
  .get fun _ _ => .pure trivial

theorem columnsHint_accepts (keywords : List String) :
    Accepts (columnsHint keywords) ks ks fun _ => True :=
  hint_accepts.bind fun _ _ => .pure trivial

theorem tablesHint_accepts : Accepts tablesHint ks ks fun _ => True :=
  hint_accepts.bind fun _ _ => .pure trivial

theorem columnsOfHint_accepts (table : Ident) : Accepts (columnsOfHint table) ks ks fun _ => True :=
  hint_accepts.bind fun _ _ => .pure trivial

theorem keywordsHint_accepts (keywords : List String) :
    Accepts (keywordsHint keywords) ks ks fun _ => True :=
  hint_accepts.bind fun _ _ => .pure trivial

theorem under_accepts (h : Hint) (hp : Accepts p ks left Q) : Accepts (under h p) ks left Q := by
  intro s hs
  obtain ⟨a, u, hrun, hu, ha⟩ := hp { s with hints := [] } hs
  have hunder : (under h p).run s = (.ok a,
      { u with hints := s.hints ++ h.closedAt (hintStop u (.ok a)) :: u.hints }) := by
    show ((p.run { s with hints := [] }).1, { (p.run { s with hints := [] }).2 with
      hints := s.hints ++ h.closedAt (hintStop (p.run { s with hints := [] }).2
        (p.run { s with hints := [] }).1) :: (p.run { s with hints := [] }).2.hints }) = _
    rw [hrun]
  exact ⟨a, _, hunder, hu, ha⟩

end

/-! ### Repetition -/

section

variable {α β : Type} {words : α → List TokenKind} {R : α → β → Prop} {left : List TokenKind}

/-- As many rounds as there are things to read, with one more to see that there are no
others. A thing is read where the next one begins, or what is left. -/
theorem manyUpTo_accepts {p : Parser (Option β)} {ends : TokenKind → Bool} {limit : Nat}
    (hleft : ends (headKind left) = true) (hstop : Accepts p left left (· = none)) {as : List α}
    (hbegin : ∀ a ∈ as, ∀ rest, ends (headKind (words a ++ rest)) = true)
    (hitem : ∀ a ∈ as, ∀ rest, ends (headKind rest) = true → (words a ++ rest).length ≤ limit →
      Accepts p (words a ++ rest) rest fun o => ∃ b, o = some b ∧ R a b)
    (hlimit : (as.flatMap words ++ left).length ≤ limit) {n : Nat} (hn : as.length < n) :
    Accepts (manyUpTo p n) (as.flatMap words ++ left) left (List.Forall₂ R as) := by
  induction as generalizing n with
  | nil =>
    obtain ⟨n, rfl⟩ : ∃ m, n = m + 1 := ⟨n - 1, by simp at hn; omega⟩
    refine hstop.bind fun o ho => ?_
    subst ho
    exact .pure .nil
  | cons a as ih =>
    obtain ⟨n, rfl⟩ : ∃ m, n = m + 1 := ⟨n - 1, by simp at hn; omega⟩
    obtain ⟨hbegin, hbegins⟩ := List.forall_mem_cons.mp hbegin
    obtain ⟨hitem, hitems⟩ := List.forall_mem_cons.mp hitem
    rw [List.flatMap_cons, List.append_assoc] at hlimit ⊢
    have hnext : ends (headKind (as.flatMap words ++ left)) = true := by
      cases as with
      | nil => exact hleft
      | cons b as =>
        rw [List.flatMap_cons, List.append_assoc]
        exact hbegins b List.mem_cons_self _
    refine (hitem _ hnext hlimit).bind ?_
    rintro _ ⟨b, rfl, hb⟩
    have hlimit' : (as.flatMap words ++ left).length ≤ limit := by
      rw [List.length_append] at hlimit
      omega
    refine (ih hbegins hitems hlimit' (by simpa using hn)).bind fun bs hbs => ?_
    exact .pure (.cons hb hbs)

theorem length_le_flatMap {as : List α} (h : ∀ a ∈ as, words a ≠ []) :
    as.length ≤ (as.flatMap words).length := by
  induction as with
  | nil => exact Nat.le_refl _
  | cons a as ih =>
    obtain ⟨ha, has⟩ := List.forall_mem_cons.mp h
    have hpos := List.length_pos_iff.mpr ha
    have hrest := ih has
    simp only [List.flatMap_cons, List.length_append, List.length_cons]
    omega

theorem many_accepts {p : Parser (Option β)} {ends : TokenKind → Bool}
    (hleft : ends (headKind left) = true) (hstop : Accepts p left left (· = none)) {as : List α}
    (hne : ∀ a ∈ as, words a ≠ [])
    (hbegin : ∀ a ∈ as, ∀ rest, ends (headKind (words a ++ rest)) = true)
    (hitem : ∀ a ∈ as, ∀ rest, ends (headKind rest) = true →
      (words a ++ rest).length ≤ (as.flatMap words ++ left).length →
      Accepts p (words a ++ rest) rest fun o => ∃ b, o = some b ∧ R a b) :
    Accepts (many p) (as.flatMap words ++ left) left (List.Forall₂ R as) := by
  refine .get fun s hs => manyUpTo_accepts hleft hstop hbegin hitem (Nat.le_refl _) ?_
  have hlength := length_le_flatMap hne
  rw [← s.length_kinds, hs, List.length_append]
  omega

theorem after_accepts {p : Parser β} {Q : β → Prop} {k : TokenKind} {ks : List TokenKind}
    (hp : Accepts p ks left Q) :
    Accepts (after k p) (k :: ks) left fun o => ∃ b, o = some b ∧ Q b :=
  .eat_head (hp.bind fun b hb => .pure ⟨b, rfl, hb⟩)

theorem after_passes {p : Parser β} {k : TokenKind} (h : headKind left ≠ k) :
    Accepts (after k p) left left (· = none) :=
  .eat_other h (.pure rfl)

/-- An option that is introduced by a token of its own. -/
theorem option_accepts {p : Parser β} {k : TokenKind} {o : Option α} (hleft : headKind left ≠ k)
    (h : ∀ a ∈ o, Accepts p (words a ++ left) left (R a)) :
    Accepts (after k p) (o.elim [] (fun a => k :: words a) ++ left) left (Option.Rel R o) := by
  cases o with
  | none =>
    refine (after_passes hleft).mono ?_
    rintro _ rfl
    exact .none
  | some a =>
    refine (after_accepts (h a rfl)).mono ?_
    rintro _ ⟨b, rfl, hb⟩
    exact .some hb

/-- Things with commas between them. Each is read where a comma comes next, or what is
left. -/
theorem commaSeparated_accepts {p : Parser β} {ends : TokenKind → Bool} (hcomma : ends .comma = true)
    (hleft : ends (headKind left) = true) (hleft' : headKind left ≠ .comma) {as : List α}
    (hne : as ≠ [])
    (hitem : ∀ a ∈ as, ∀ rest, ends (headKind rest) = true →
      (words a ++ rest).length ≤ (commaWords (as.map words) ++ left).length →
      Accepts p (words a ++ rest) rest (R a)) :
    Accepts (commaSeparated p) (commaWords (as.map words) ++ left) left (List.Forall₂ R as) := by
  obtain ⟨a, as, rfl⟩ := List.exists_cons_of_ne_nil hne
  obtain ⟨hfirst, hitems⟩ := List.forall_mem_cons.mp hitem
  rw [List.map_cons, commaWords, List.flatMap_map] at hfirst hitems ⊢
  rw [List.append_assoc] at hfirst hitems ⊢
  have hnext : ends (headKind (as.flatMap (fun a => .comma :: words a) ++ left)) = true := by
    cases as with
    | nil => exact hleft
    | cons b as => exact hcomma
  refine (hfirst _ hnext (Nat.le_refl _)).bind fun b hb => ?_
  have hrest : Accepts (many (after .comma p)) (as.flatMap (fun a => .comma :: words a) ++ left)
      left (List.Forall₂ R as) := by
    refine many_accepts hleft (after_passes hleft') (fun _ _ => List.cons_ne_nil _ _)
      (fun _ _ _ => hcomma) fun a ha rest hrest hlength => after_accepts (hitems a ha rest hrest ?_)
    simp only [List.length_append, List.length_cons] at hlength ⊢
    omega
  exact hrest.bind fun bs hbs => .pure (.cons hb hbs)

end

end Parser
end SqlAnalysis

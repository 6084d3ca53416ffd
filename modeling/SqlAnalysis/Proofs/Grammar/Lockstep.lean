import SqlAnalysis.Grammar.Definition
import SqlAnalysis.Proofs.Grammar.Spelling

/-!
# Two runs of a parser side by side

Whether a parser looks at more than the tokens it reads shows when it runs twice:
once on some tokens, and once on the same tokens with others behind them. Such a
tail is empty or begins with a semicolon. Two runs agree if they read the same
tokens and both give the same result, or both complain.

What a parser reads is stated with it, as a relation between its result, the
tokens it read and those that are left in the first run. With an empty tail and
one state, agreement is a contract for a single run.
-/
namespace SqlAnalysis

/-- Whether a statement ends before a token. -/
def TokenKind.endsStatement : TokenKind → Bool
  | .semicolon | .eof => true
  | _ => false

/-- The kind of the token `n` places ahead, the end of the text past the last one. -/
def kindAhead (ts : List Token) (n : Nat) : TokenKind :=
  match ts[n]? with
  | some t => t.kind
  | none => .eof

/-- What the grammar complains about. -/
def Diagnostic.IsGrammatical (d : Diagnostic) : Prop :=
  ∃ message range, d = .grammatical message range

theorem Diagnostic.IsGrammatical.isError {d : Diagnostic} (h : d.IsGrammatical) :
    d.isError = true := by
  obtain ⟨message, range, rfl⟩ := h
  rfl

namespace ParserState

/-- Whether `after` is `s` with the tokens `read` taken off its front. Hints are
not looked at. -/
structure Took (s : ParserState) (read : List Token) (after : ParserState) : Prop where
  tokens : s.tokens = read ++ after.tokens
  final : after.final = s.final
  lastSpan : after.lastSpan = (read.getLast?.map Token.span).getD s.lastSpan

namespace Took

variable {s t u : ParserState} {read more : List Token}

theorem refl (s : ParserState) : s.Took [] s :=
  ⟨rfl, rfl, rfl⟩

theorem trans (h : s.Took read t) (h' : t.Took more u) : s.Took (read ++ more) u where
  tokens := by rw [h.tokens, h'.tokens, List.append_assoc]
  final := h'.final.trans h.final
  lastSpan := by
    rw [h'.lastSpan, h.lastSpan, List.getLast?_append]
    cases more.getLast? <;> simp

theorem length_eq (h : s.Took read t) : s.tokens.length = read.length + t.tokens.length := by
  rw [h.tokens, List.length_append]

theorem length_succ {x : Token} (h : s.Took [x] t) : s.tokens.length = t.tokens.length + 1 := by
  rw [h.length_eq, List.length_singleton, Nat.add_comm]

theorem length_le (h : s.Took read t) : t.tokens.length ≤ s.tokens.length := by
  have := h.length_eq
  omega

theorem kindAt_eq (h : s.Took read t) (n : Nat) : s.kindAt (read.length + n) = t.kindAt n := by
  simp [kindAt, h.tokens, List.getElem?_append_right]

/-- From the first token that was read to the last. -/
theorem runs (h : s.Took read u) {first : Token} (hfirst : first ∈ read.head?) :
    Span.Runs ⟨first.span.start, max u.lastSpan.stop first.span.stop⟩ read := by
  intro horder
  obtain ⟨rest, rfl⟩ := List.head?_eq_some_iff.mp hfirst
  obtain ⟨last, hlast⟩ : ∃ last, last ∈ (first :: rest).getLast? :=
    ⟨_, List.getLast?_eq_some_getLast (List.cons_ne_nil first rest)⟩
  have hcovers : Span.Covers ⟨first.span.start, last.span.stop⟩ (first :: rest) :=
    ⟨first, rfl, last, hlast, rfl⟩
  have hle := hcovers.le_stop horder List.mem_cons_self
  rw [h.lastSpan, hlast, Option.map_some, Option.getD_some, Nat.max_eq_left hle]
  exact hcovers

/-- The token that is seen before something is read is the first that is read. -/
theorem current_mem_head? (h : s.Took read u) (hread : read ≠ []) : s.current ∈ read.head? := by
  obtain ⟨t, ts, rfl⟩ := List.exists_cons_of_ne_nil hread
  rw [current, h.tokens]
  rfl

end Took

theorem took_advance {s : ParserState} {t : Token} {ts : List Token} (h : s.tokens = t :: ts) :
    s.Took [t] s.advance := by
  constructor <;> simp [advance, h]

/-- Whether `s'` has the tokens of `s` with a tail behind them that the statement
at `s` cannot reach into. -/
structure Extends (tail : List Token) (s s' : ParserState) : Prop where
  ends : ∀ t ∈ tail.head?, t.kind = .semicolon
  tokens : s'.tokens = s.tokens ++ tail
  final : s.final.kind = .eof
  final' : s'.final.kind = .eof

/-- Whether besides the same token was read last. -/
structure InStep (tail : List Token) (s s' : ParserState) : Prop extends Extends tail s s' where
  lastSpan : s'.lastSpan = s.lastSpan

section

variable {tail read ts : List Token} {s s' u u' : ParserState} {t : Token} {kind : TokenKind}

theorem InStep.refl (hs : s.final.kind = .eof) : InStep [] s s where
  ends := by simp
  tokens := by simp
  final := hs
  final' := hs
  lastSpan := rfl

theorem Extends.head_kind (h : Extends (t :: ts) s s') : t.kind = .semicolon :=
  h.ends t rfl

theorem Extends.length_eq (h : Extends tail s s') :
    s'.tokens.length = s.tokens.length + tail.length := by
  rw [h.tokens, List.length_append]

theorem Extends.after (h : Extends tail s s') (hu : s.Took read u) (hu' : s'.Took read u') :
    Extends tail u u' where
  ends := h.ends
  tokens := by
    have := h.tokens
    rw [hu.tokens, hu'.tokens, List.append_assoc] at this
    exact List.append_cancel_left this
  final := by rw [hu.final, h.final]
  final' := by rw [hu'.final, h.final']

theorem InStep.after (h : InStep tail s s') (hu : s.Took read u) (hu' : s'.Took read u') :
    InStep tail u u' where
  toExtends := h.toExtends.after hu hu'
  lastSpan := by rw [hu.lastSpan, hu'.lastSpan, h.lastSpan]

/-- Once a token is read, it is the same one in both runs. -/
theorem Extends.inStep_after (h : Extends tail s s') (hu : s.Took read u) (hu' : s'.Took read u')
    (hread : read ≠ []) : InStep tail u u' where
  toExtends := h.after hu hu'
  lastSpan := by
    rw [hu.lastSpan, hu'.lastSpan, List.getLast?_eq_some_getLast hread]
    rfl

theorem kindAt_eq (s : ParserState) (n : Nat) : s.kindAt n = kindAhead s.tokens n := rfl

/-- Up to the end of the first run both see the same, but for what ends the statement. -/
theorem Extends.kindAt_cases (h : Extends tail s s') {n : Nat} (hn : n ≤ s.tokens.length) :
    s'.kindAt n = s.kindAt n ∨ s.kindAt n = .eof ∧ s'.kindAt n = .semicolon := by
  simp only [kindAt_eq, h.tokens]
  rcases Nat.lt_or_eq_of_le hn with hlt | rfl
  · exact .inl (by simp [kindAhead, List.getElem?_append_left hlt])
  · cases tail with
    | nil => exact .inl (by simp)
    | cons t ts =>
      have ht := h.head_kind
      exact .inr (by simp [kindAhead, ht])

theorem Extends.kindAt_eq_iff (h : Extends tail s s') {n : Nat} (hn : n ≤ s.tokens.length)
    (hkind : kind.endsStatement = false) : s'.kindAt n = kind ↔ s.kindAt n = kind := by
  rcases h.kindAt_cases hn with heq | ⟨heof, hsemicolon⟩
  · rw [heq]
  · rw [heof, hsemicolon]
    constructor <;> (rintro rfl; simp [TokenKind.endsStatement] at hkind)

theorem exists_of_kindAt (h : s.kindAt 0 = kind) (hkind : kind.endsStatement = false) :
    ∃ t ts, s.tokens = t :: ts ∧ t.kind = kind := by
  cases hs : s.tokens with
  | nil =>
    subst h
    simp [kindAt, hs, TokenKind.endsStatement] at hkind
  | cons t ts => exact ⟨t, ts, rfl, by simpa [kindAt, hs] using h⟩

end

end ParserState

open ParserState

/-- Whether two runs read the same tokens and end alike. `Q` relates the result, the
tokens read and those that are left in the first run. -/
inductive SameReading {α : Type} (Q : α → List Token → List Token → Prop)
    (s s' : ParserState) :
    Except Diagnostic α × ParserState → Except Diagnostic α × ParserState → Prop
  | ok {a : α} {read : List Token} {u u' : ParserState} :
      s.Took read u → s'.Took read u' → Q a read u.tokens →
      SameReading Q s s' (.ok a, u) (.ok a, u')
  | error {d d' : Diagnostic} {read : List Token} {u u' : ParserState} :
      s.Took read u → s'.Took read u' → d.IsGrammatical → d'.IsGrammatical →
      SameReading Q s s' (.error d, u) (.error d', u')

namespace Parser

variable {α β : Type} {tail : List Token} {s s' u u' : ParserState}

theorem run_bind (p : Parser α) (f : α → Parser β) (s : ParserState) :
    (p >>= f).run s = match p.run s with
      | (.ok a, u) => (f a).run u
      | (.error d, u) => (.error d, u) := by
  show ExceptT.bindCont f (p.run s).1 (p.run s).2 = _
  rcases p.run s with ⟨_ | _, _⟩ <;> rfl

theorem run_under (h : Hint) (p : Parser α) (s : ParserState) :
    (under h p).run s = match p.run { s with hints := [] } with
      | (result, u) =>
        (result, { u with hints := s.hints ++ h.closedAt (hintStop u result) :: u.hints }) :=
  rfl

theorem ident_run (s : ParserState) :
    ident.run s = match nameOf? s.current.kind with
      | some (name, quoted) => (.ok ⟨name, quoted, s.current.span⟩, s.advance)
      | none => (.error (s.expected "identifier"), s) := by
  have hcurrent : current.run s = (.ok s.current, s) := rfl
  rw [ident, run_bind, hcurrent]
  dsimp only
  cases nameOf? s.current.kind with
  | none => rfl
  | some found => rfl

/-- Whether `p` run on `s` and `p'` run on `s'` read and give the same. -/
def Agree (p p' : Parser α) (s s' : ParserState) (Q : α → List Token → List Token → Prop) : Prop :=
  SameReading Q s s' (p.run s) (p'.run s')

namespace Agree

variable {p p' : Parser α} {f f' : α → Parser β} {kind : TokenKind}
  {Q : α → List Token → List Token → Prop} {R : β → List Token → List Token → Prop}

theorem pure {a : α} (h : Q a [] s.tokens) : Agree (pure a) (pure a) s s' Q :=
  .ok (.refl s) (.refl s') h

theorem failExpected (what : String) : Agree (failExpected what) (failExpected what) s s' Q :=
  .error (.refl s) (.refl s') ⟨_, _, rfl⟩ ⟨_, _, rfl⟩

theorem throw {message : String} {range range' : Range} :
    Agree (throw (.grammatical message range)) (throw (.grammatical message range')) s s' Q :=
  .error (.refl s) (.refl s') ⟨_, _, rfl⟩ ⟨_, _, rfl⟩

theorem mono {Q' : α → List Token → List Token → Prop} (h : Agree p p' s s' Q)
    (himp : ∀ a read left, Q a read left → Q' a read left) : Agree p p' s s' Q' := by
  unfold Agree at *
  cases hr : p.run s
  cases hr' : p'.run s'
  rw [hr, hr'] at h
  cases h with
  | ok hu hu' hQ => exact .ok hu hu' (himp _ _ _ hQ)
  | error hu hu' hd hd' => exact .error hu hu' hd hd'

/-- The second parser goes on where the first one stops. -/
theorem bind_after (hp : Agree p p' s s' Q)
    (hf : ∀ a read u u', s.Took read u → s'.Took read u' → Q a read u.tokens →
      Agree (f a) (f' a) u u' fun b more left => R b (read ++ more) left) :
    Agree (p >>= f) (p' >>= f') s s' R := by
  unfold Agree at *
  rw [run_bind, run_bind]
  rcases hr : p.run s with ⟨result, u⟩
  rcases hr' : p'.run s' with ⟨result', u'⟩
  rw [hr, hr'] at hp
  cases hp with
  | error hu hu' hd hd' => exact .error hu hu' hd hd'
  | @ok a read _ _ hu hu' hQ =>
    have h := hf a read u u' hu hu' hQ
    dsimp only
    rcases hr : (f a).run u with ⟨result, v⟩
    rcases hr' : (f' a).run u' with ⟨result', v'⟩
    rw [hr, hr'] at h
    cases h with
    | ok hv hv' hR => exact .ok (hu.trans hv) (hu'.trans hv') hR
    | error hv hv' hd hd' => exact .error (hu.trans hv) (hu'.trans hv') hd hd'

theorem bind (h : InStep tail s s') (hp : Agree p p' s s' Q)
    (hf : ∀ a read u u', s.Took read u → InStep tail u u' → Q a read u.tokens →
      Agree (f a) (f' a) u u' fun b more left => R b (read ++ more) left) :
    Agree (p >>= f) (p' >>= f') s s' R :=
  hp.bind_after fun a read u u' hu hu' hQ => hf a read u u' hu (h.after hu hu') hQ

/-- Where the first parser reads a token, the runs need not have read the same
one before. -/
theorem bind_read (h : Extends tail s s') (hp : Agree p p' s s' Q)
    (hread : ∀ a read left, Q a read left → read ≠ [])
    (hf : ∀ a read u u', s.Took read u → InStep tail u u' → Q a read u.tokens →
      Agree (f a) (f' a) u u' fun b more left => R b (read ++ more) left) :
    Agree (p >>= f) (p' >>= f') s s' R :=
  hp.bind_after fun a read u u' hu hu' hQ =>
    hf a read u u' hu (h.inStep_after hu hu' (hread a read _ hQ)) hQ

/-- A parser that only looks can be left out. -/
theorem skip (a a' : α) (hp : p.run s = (.ok a, s)) (hp' : p'.run s' = (.ok a', s'))
    (hf : Agree (f a) (f' a') s s' R) : Agree (p >>= f) (p' >>= f') s s' R := by
  unfold Agree at *
  rw [run_bind, run_bind, hp, hp']
  exact hf

/-- Looking for a kind inside a statement gives the same in both runs. -/
theorem check {f f' : Bool → Parser β} (h : Extends tail s s')
    (hk : kind.endsStatement = false)
    (hf : ∀ b, (b = true ↔ s.kindAt 0 = kind) → Agree (f b) (f' b) s s' R) :
    Agree (check kind >>= f) (check kind >>= f') s s' R := by
  have hb : decide (s'.kindAt 0 = kind) = decide (s.kindAt 0 = kind) :=
    decide_eq_decide.mpr (h.kindAt_eq_iff (Nat.zero_le _) hk)
  refine skip (decide (s.kindAt 0 = kind)) _ rfl ?_ (hf _ decide_eq_true_iff)
  rw [← hb]
  rfl

theorem ifCheck {yes yes' no no' : Parser β} (h : Extends tail s s')
    (hk : kind.endsStatement = false) (hyes : s.kindAt 0 = kind → Agree yes yes' s s' R)
    (hno : s.kindAt 0 ≠ kind → Agree no no' s s' R) :
    Agree (Parser.check kind >>= fun b => if b then yes else no)
      (Parser.check kind >>= fun b => if b then yes' else no') s s' R := by
  apply check h hk
  intro b hb
  cases b with
  | true => exact hyes (hb.mp rfl)
  | false => exact hno fun hs => Bool.false_ne_true (hb.mpr hs)

end Agree

theorem advance_agree (h : Extends tail s s') {t : Token} {ts : List Token}
    (hs : s.tokens = t :: ts) :
    Agree advance advance s s' fun a read left => a = t ∧ read = [t] ∧ left = ts := by
  have hs' : s'.tokens = t :: (ts ++ tail) := by rw [h.tokens, hs, List.cons_append]
  have hcurrent : s.current = t := by simp [ParserState.current, hs]
  have hcurrent' : s'.current = t := by simp [ParserState.current, hs']
  have hrun : Parser.advance.run s = (.ok t, s.advance) := by rw [← hcurrent]; rfl
  have hrun' : Parser.advance.run s' = (.ok t, s'.advance) := by rw [← hcurrent']; rfl
  unfold Agree
  rw [hrun, hrun']
  refine .ok (took_advance hs) (took_advance hs') ⟨rfl, rfl, ?_⟩
  simp [ParserState.advance, hs]

namespace Agree

variable {p p' : Parser α} {f f' : α → Parser β} {kind : TokenKind}
  {Q : α → List Token → List Token → Prop} {R : β → List Token → List Token → Prop}

/-- Reads a token whose kind has been looked at. -/
theorem advance {f f' : Token → Parser β} (h : Extends tail s s') (hs : s.kindAt 0 = kind)
    (hk : kind.endsStatement = false)
    (hf : ∀ t u u', s.Took [t] u → InStep tail u u' → t.kind = kind →
      Agree (f t) (f' t) u u' fun b more left => R b (t :: more) left) :
    Agree (Parser.advance >>= f) (Parser.advance >>= f') s s' R := by
  obtain ⟨t, ts, hts, ht⟩ := exists_of_kindAt hs hk
  refine bind_read h (advance_agree h hts) ?_ ?_
  · rintro _ _ _ ⟨-, rfl, -⟩
    exact List.cons_ne_nil _ _
  · rintro _ _ u u' hu hu' ⟨rfl, rfl, -⟩
    exact hf _ u u' hu hu' ht

theorem ifEat {yes yes' no no' : Parser β} (h : Extends tail s s')
    (hk : kind.endsStatement = false)
    (hyes : ∀ t u u', s.Took [t] u → InStep tail u u' → t.kind = kind →
      Agree yes yes' u u' fun b more left => R b (t :: more) left)
    (hno : s.kindAt 0 ≠ kind → Agree no no' s s' R) :
    Agree (eat kind >>= fun b => if b then yes else no)
      (eat kind >>= fun b => if b then yes' else no') s s' R := by
  unfold eat
  simp only [bind_assoc]
  apply check h hk
  intro b hb
  cases b with
  | true =>
    simp only [if_true, bind_assoc, pure_bind]
    exact advance h (hb.mp rfl) hk hyes
  | false =>
    simp only [Bool.false_eq_true, if_false, pure_bind]
    exact hno fun hs => Bool.false_ne_true (hb.mpr hs)

end Agree
end Parser
end SqlAnalysis

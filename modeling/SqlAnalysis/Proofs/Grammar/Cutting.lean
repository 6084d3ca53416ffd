import SqlAnalysis.Proofs.Grammar.Progress
import SqlAnalysis.Proofs.Token.Excerpts

/-!
# Parsers on an excerpt

A parser runs twice: on some tokens, and on an excerpt of them, the first few with nothing
behind and each shifted to the left. If the first run succeeds without reading beyond the
excerpt, then so does the second, with the same result shifted. What a parser finds behind
the tokens it reads can be a token in one run and the end in the other; no rule of the
grammar goes on because of what it is not going to read.
-/
namespace SqlAnalysis

/-- Whether some tokens do not end with a point, behind which a name is missing. -/
def Finished (ts : List Token) : Prop :=
  ∀ t ∈ ts.getLast?, t.kind ≠ .dot

namespace Finished

variable {ts us : List Token}

theorem nil : Finished [] := nofun

theorem singleton {t : Token} (h : t.kind ≠ .dot) : Finished [t] := by
  simpa [Finished] using h

theorem append_right (ts : List Token) (hne : us ≠ []) (h : Finished us) :
    Finished (ts ++ us) := by
  intro t ht
  rw [List.getLast?_append_of_ne_nil _ hne] at ht
  exact h t ht

theorem append (h : Finished ts) (h' : Finished us) : Finished (ts ++ us) := by
  by_cases hne : us = []
  · rwa [hne, List.append_nil]
  · exact append_right ts hne h'

end Finished

namespace ParserState

theorem tokens_advance_eq_tail (s : ParserState) : s.advance.tokens = s.tokens.tail := by
  cases h : s.tokens <;> simp [advance, h]

/-- Whether the tokens left at `s'` are those left at `s` up to some that stand behind, each
`n` bytes further to the left. -/
structure Cut (n : Nat) (behind : List Token) (s s' : ParserState) : Prop where
  tokens : ∃ kept, s.tokens = kept ++ behind ∧ List.Forall₂ (Token.Shifts n) kept s'.tokens
  lastSpan : s.lastSpan = s'.lastSpan.shift n
  final : s.final.kind = .eof
  final' : s'.final.kind = .eof

namespace Cut

variable {n : Nat} {behind read : List Token} {s s' u u' : ParserState}

theorem length_eq (h : Cut n behind s s') :
    s.tokens.length = s'.tokens.length + behind.length := by
  obtain ⟨kept, htokens, hkept⟩ := h.tokens
  rw [htokens, List.length_append, hkept.length_eq]

/-- The next token is the same if the excerpt has one. -/
theorem advance (h : Cut n behind s s') (hne : s'.tokens ≠ []) :
    s.current.Shifts n s'.current ∧ Cut n behind s.advance s'.advance := by
  obtain ⟨kept, htokens, hkept⟩ := h.tokens
  obtain ⟨t', ts', hts'⟩ := List.exists_cons_of_ne_nil hne
  rw [hts'] at hkept
  obtain ⟨t, ts, ht, hts, rfl⟩ := List.forall₂_cons_right_iff.mp hkept
  rw [List.cons_append] at htokens
  refine ⟨by simpa [ParserState.current, htokens, hts'] using ht, ?_⟩
  constructor <;> simp only [ParserState.advance, htokens, hts']
  · exact ⟨ts, rfl, hts⟩
  · exact ht.span
  · exact h.final
  · exact h.final'

/-- The next two tokens are read if the excerpt has them. -/
theorem advanceTwice (h : Cut n behind s s') (hlen : 2 ≤ s'.tokens.length) :
    Cut n behind s.advance.advance s'.advance.advance := by
  have hne : s'.advance.tokens ≠ [] := by
    rw [tokens_advance_eq_tail]
    exact List.length_pos_iff.mp (by rw [List.length_tail]; omega)
  exact ((h.advance (List.length_pos_iff.mp (by omega))).2.advance hne).2

theorem kindAt_eq (h : Cut n behind s s') {i : Nat} (hi : i < s'.tokens.length) :
    s'.kindAt i = s.kindAt i := by
  obtain ⟨kept, htokens, hkept⟩ := h.tokens
  have hlen : i < kept.length := hkept.length_eq ▸ hi
  have hshifts := hkept.get hlen hi
  simp only [kindAt, htokens, List.getElem?_append_left hlen, List.getElem?_eq_getElem hi,
    List.getElem?_eq_getElem hlen]
  exact hshifts.kind.symm

/-- In the excerpt the same is seen ahead, or the end. -/
theorem kindAt_cases (h : Cut n behind s s') (i : Nat) :
    s'.kindAt i = s.kindAt i ∨ s'.kindAt i = .eof := by
  rcases Nat.lt_or_ge i s'.tokens.length with hi | hi
  · exact .inl (h.kindAt_eq hi)
  · exact .inr (by simp [kindAt, List.getElem?_eq_none hi])

theorem kindAt_of_ne (h : Cut n behind s s') {i : Nat} {kind : TokenKind}
    (hs' : s'.kindAt i = kind) (hkind : kind ≠ .eof) : s.kindAt i = kind := by
  rcases h.kindAt_cases i with heq | heof
  · rw [← heq, hs']
  · exact absurd (hs' ▸ heof) hkind

theorem took_nil (h : Cut n behind s s') (hu : s.Took [] u) : Cut n behind u s' where
  tokens := by simpa [hu.tokens] using h.tokens
  lastSpan := by simpa [hu.lastSpan] using h.lastSpan
  final := hu.final ▸ h.final
  final' := h.final'

theorem ofHints (h : Cut n behind s s') {ms ms' : List Hint} :
    Cut n behind { s with hints := ms } { s' with hints := ms' } :=
  ⟨h.tokens, h.lastSpan, h.final, h.final'⟩

end Cut
end ParserState

open ParserState

namespace Parser

/-- Whether what a parser reads does not end with a point. -/
def Closes {α : Type} (p : Parser α) : Prop :=
  ∀ s : ParserState, Reads p s fun _ read => Finished read

/-- Whether a parser that only looks gives something. -/
def Looks {α : Type} (p : Parser α) : Prop :=
  ∀ s : ParserState, ∃ a, p.run s = (.ok a, s)

/-- Whether a parser on an excerpt does the same, with the result moved. The two parsers may
depend on what was read before, of which the condition tells. -/
structure Cuts {α : Type} (n : Nat) (behind : List Token) (c : Prop) (move : α → α)
    (p p' : Parser α) : Prop where
  closes : Closes p
  run : c → ∀ s s' a u, Cut n behind s s' → p.run s = (.ok a, u) →
    behind.length ≤ u.tokens.length →
      ∃ a' u', p'.run s' = (.ok a', u') ∧ a = move a' ∧ Cut n behind u u'

/-- Whether it does where the next token is of a kind, which it reads. -/
structure CutsAt {α : Type} (n : Nat) (behind : List Token) (kind : TokenKind) (c : Prop)
    (move : α → α) (p p' : Parser α) : Prop where
  closes : ∀ s : ParserState, s.kindAt 0 = kind →
    Reads p s fun _ read => read ≠ [] ∧ Finished read
  run : c → ∀ s s' a u, Cut n behind s s' → s.kindAt 0 = kind → s'.kindAt 0 = kind →
    p.run s = (.ok a, u) → behind.length ≤ u.tokens.length →
      ∃ a' u', p'.run s' = (.ok a', u') ∧ a = move a' ∧ Cut n behind u u'

variable {α β γ : Type} {n : Nat} {behind : List Token} {c c' : Prop} {kind : TokenKind}
  {move : α → α} {move' : β → β}

theorem Closes.bind {p : Parser α} {f : α → Parser β} (hp : Closes p) (hf : ∀ a, Closes (f a)) :
    Closes (p >>= f) :=
  fun s => (hp s).bind fun a _ u _ hread => (hf a u).mono fun _ _ => hread.append

theorem Closes.pure (a : α) : Closes (pure a) :=
  fun _ => .pure .nil

/-- What is left out can be left out under a hint too. -/
theorem under_unit (h : Hint) (p : Parser α) :
    (under h p >>= fun _ => pure ()) = under h (p >>= fun _ => pure ()) := by
  funext s
  change (under h p >>= fun _ => pure ()).run s = (under h (p >>= fun _ => pure ())).run s
  rw [run_bind, run_under, run_under, run_bind]
  rcases p.run { s with hints := [] } with ⟨_ | _, _⟩ <;> rfl

/-- A parser gives the same under a hint, up to the hints that are recorded. -/
theorem exists_hints_of_run {p : Parser α} {s v : ParserState} {result : Except Diagnostic α}
    (h : Hint) (hrun : p.run { s with hints := [] } = (result, v)) :
    ∃ ms, (under h p).run s = (result, { v with hints := ms }) := by
  refine ⟨s.hints ++ h.closedAt (hintStop v result) :: v.hints, ?_⟩
  rw [run_under, hrun]

theorem exists_run_of_under {p : Parser α} {s u : ParserState} {result : Except Diagnostic α}
    {h : Hint} (hrun : (under h p).run s = (result, u)) :
    ∃ v, p.run { s with hints := [] } = (result, v) ∧ ∃ ms, u = { v with hints := ms } := by
  rcases hr : p.run { s with hints := [] } with ⟨result', v⟩
  obtain ⟨ms, hunder⟩ := exists_hints_of_run h hr
  rw [hunder] at hrun
  obtain ⟨rfl, rfl⟩ := Prod.mk.inj hrun
  exact ⟨v, rfl, ms, rfl⟩

namespace Cuts

variable {p p' : Parser α} {f f' : α → Parser β}

theorem pure {a a' : α} (h : c → a = move a') : Cuts n behind c move (pure a) (pure a') where
  closes := .pure a
  run hc s s' b u hcut hrun _ := by
    obtain ⟨rfl, rfl⟩ : a = b ∧ s = u := by cases hrun; exact ⟨rfl, rfl⟩
    exact ⟨a', s', rfl, h hc, hcut⟩

/-- Nothing is asked of parsers that fail. -/
theorem of_error (h : ∀ s a u, p.run s ≠ (.ok a, u)) : Cuts n behind c move p p' where
  closes s _ a u hrun := absurd hrun (h s a u)
  run _ s _ a u _ hrun := absurd hrun (h s a u)

theorem failExpected (what : String) : Cuts n behind c move (failExpected what) p' :=
  .of_error fun _ _ _ hrun => nomatch hrun

theorem bind (hp : Cuts n behind c move p p')
    (hf : ∀ a a', Cuts n behind (c ∧ a = move a') move' (f a) (f' a')) :
    Cuts n behind c move' (p >>= f) (p' >>= f') where
  closes := hp.closes.bind fun a => (hf a a).closes
  run hc s s' b v hcut hrun hlen := by
    rw [run_bind] at hrun
    rcases hr : p.run s with ⟨_ | a, u⟩
    · rw [hr] at hrun
      cases hrun
    · rw [hr] at hrun
      obtain ⟨_, hu, -⟩ := hp.closes s hcut.final a u hr
      obtain ⟨_, hv, -⟩ := (hf a a).closes u (hu.final ▸ hcut.final) b v hrun
      obtain ⟨a', u', hr', ha, hcut'⟩ := hp.run hc s s' a u hcut hr (hlen.trans hv.length_le)
      obtain ⟨b', v', hrun', hb, hcut''⟩ := (hf a a').run ⟨hc, ha⟩ u u' b v hcut' hrun hlen
      exact ⟨b', v', by rw [run_bind, hr']; exact hrun', hb, hcut''⟩

theorem weaken (h : Cuts n behind c move p p') (hc : c' → c) : Cuts n behind c' move p p' :=
  ⟨h.closes, fun hc' => h.run (hc hc')⟩

/-- The condition may be used to see what the parsers are. -/
theorem assuming (hcloses : Closes p) (h : c → Cuts n behind True move p p') :
    Cuts n behind c move p p' :=
  ⟨hcloses, fun hc => (h hc).run trivial⟩

/-- What is read first is the same in both runs. -/
theorem bindId (hp : Cuts n behind c id p p') (hf : ∀ a, Cuts n behind c move' (f a) (f' a)) :
    Cuts n behind c move' (p >>= f) (p' >>= f') := by
  refine hp.bind fun a a' => .assuming (hf a).closes fun ⟨hc, ha⟩ => ?_
  rw [ha]
  exact (hf a').weaken fun _ => hc

/-- What is read first may be nothing. -/
theorem bindOption {p p' : Parser (Option α)} {f f' : Option α → Parser β}
    (hp : Cuts n behind c (Option.map move) p p') (hnone : Cuts n behind c move' (f none) (f' none))
    (hsome : ∀ a a', Cuts n behind (c ∧ a = move a') move' (f (some a)) (f' (some a'))) :
    Cuts n behind c move' (p >>= f) (p' >>= f') := by
  have hcloses : ∀ a?, Closes (f a?) := by
    rintro (_ | a)
    · exact hnone.closes
    · exact (hsome a a).closes
  refine hp.bind fun a? a?' => .assuming (hcloses a?) fun ⟨hc, ha⟩ => ?_
  subst ha
  cases a?' with
  | none => exact hnone.weaken fun _ => hc
  | some a' => exact (hsome (move a') a').weaken fun _ => ⟨hc, rfl⟩

/-- Parsers that only look can be left out. What they see may differ. -/
theorem look {q q' : Parser γ} {f f' : γ → Parser β} (hq : Looks q) (hq' : Looks q')
    (hf : ∀ x x', Cuts n behind c move' (f x) (f' x')) :
    Cuts n behind c move' (q >>= f) (q' >>= f') where
  closes s := by
    obtain ⟨x, hx⟩ := hq s
    exact .look x hx ((hf x x).closes s)
  run hc s s' b v hcut hrun hlen := by
    obtain ⟨x, hx⟩ := hq s
    obtain ⟨x', hx'⟩ := hq' s'
    rw [run_bind, hx] at hrun
    rw [run_bind, hx']
    exact (hf x x').run hc s s' b v hcut hrun hlen

theorem ite {p p' q q' : Parser α} {d : Prop} [Decidable d] (hp : Cuts n behind c move p p')
    (hq : Cuts n behind c move q q') :
    Cuts n behind c move (if d then p else q) (if d then p' else q') := by
  split
  · exact hp
  · exact hq

/-- Hints are not looked at. -/
theorem under (hp : Cuts n behind c move p p') (h h' : Hint) :
    Cuts n behind c move (Parser.under h p) (Parser.under h' p') where
  closes s := .under (hp.closes _)
  run hc s s' a u hcut hrun hlen := by
    obtain ⟨v, hr, ms, rfl⟩ := exists_run_of_under hrun
    obtain ⟨a', v', hr', ha, hcut'⟩ := hp.run hc _ _ a v hcut.ofHints hr hlen
    obtain ⟨ms', hunder⟩ := exists_hints_of_run h' hr'
    exact ⟨a', _, hunder, ha, hcut'.ofHints⟩

theorem spanFrom {start start' : Span} {f f' : Span → Parser β} (hstart : c → start = start'.shift n)
    (hf : ∀ span span', Cuts n behind (c ∧ span = span'.shift n) move' (f span) (f' span')) :
    Cuts n behind c move' (Parser.spanFrom start >>= f) (Parser.spanFrom start' >>= f') := by
  have hspan : Cuts n behind c (Span.shift n) (Parser.spanFrom start) (Parser.spanFrom start') := by
    refine ⟨fun s => .look s rfl (.pure .nil), fun hc s s' a u hcut hrun _ => ?_⟩
    obtain ⟨rfl, rfl⟩ : ⟨start.start, max s.lastSpan.stop start.stop⟩ = a ∧ s = u := by
      cases hrun
      exact ⟨rfl, rfl⟩
    refine ⟨_, s', rfl, ?_, hcut⟩
    rw [hstart hc, hcut.lastSpan]
    simp [Span.shift, Nat.add_max_add_right]
  exact .bind hspan hf

/-- A parser that reads a token does so in both runs. -/
theorem at_kind (hp : Cuts n behind c move p p') (hconsumes : Consumes p) :
    CutsAt n behind kind c move p p' where
  closes s _ := by
    intro hfinal a u hrun
    obtain ⟨read, hu, hread⟩ := hp.closes s hfinal a u hrun
    obtain ⟨read', hu', hne⟩ := hconsumes s hfinal a u hrun
    obtain rfl : read = read' := List.append_cancel_right (hu.tokens.symm.trans hu'.tokens)
    exact ⟨read, hu, hne, hread⟩
  run hc s s' a u hcut _ _ := hp.run hc s s' a u hcut

end Cuts

/-! ### Parsers that begin with a token -/

/-- What reads a token that is behind the excerpt does not stay within it. -/
theorem CutsAt.kindAt_eq {p p' : Parser α} {s s' u : ParserState} {a : α}
    (hp : CutsAt n behind kind c move p p') (hcut : Cut n behind s s') (hs : s.kindAt 0 = kind)
    (hrun : p.run s = (.ok a, u)) (hlen : behind.length ≤ u.tokens.length) :
    s'.tokens ≠ [] ∧ s'.kindAt 0 = kind := by
  obtain ⟨read, hu, hread, -⟩ := hp.closes s hs hcut.final a u hrun
  have hpos : 0 < s'.tokens.length := by
    have := hcut.length_eq
    have := hu.length_eq
    have := List.length_pos_iff.mpr hread
    omega
  exact ⟨List.length_pos_iff.mp hpos, by rw [hcut.kindAt_eq hpos, hs]⟩

namespace CutsAt

variable {p p' : Parser α} {f f' : α → Parser β}

theorem failExpected (what : String) : CutsAt n behind kind c move (failExpected what) p' where
  closes _ _ := .failExpected what
  run _ _ _ _ _ _ _ _ hrun := nomatch hrun

theorem bind (hp : CutsAt n behind kind c move p p')
    (hf : ∀ a a', Cuts n behind (c ∧ a = move a') move' (f a) (f' a')) :
    CutsAt n behind kind c move' (p >>= f) (p' >>= f') where
  closes s hs := (hp.closes s hs).bind fun a read u _ hread =>
    ((hf a a).closes u).mono fun _ more hmore =>
      ⟨by simp [hread.1], hread.2.append hmore⟩
  run hc s s' b v hcut hs hs' hrun hlen := by
    rw [run_bind] at hrun
    rcases hr : p.run s with ⟨_ | a, u⟩
    · rw [hr] at hrun
      cases hrun
    · rw [hr] at hrun
      obtain ⟨_, hu, -⟩ := hp.closes s hs hcut.final a u hr
      obtain ⟨_, hv, -⟩ := (hf a a).closes u (hu.final ▸ hcut.final) b v hrun
      obtain ⟨a', u', hr', ha, hcut'⟩ :=
        hp.run hc s s' a u hcut hs hs' hr (hlen.trans hv.length_le)
      obtain ⟨b', v', hrun', hb, hcut''⟩ := (hf a a').run ⟨hc, ha⟩ u u' b v hcut' hrun hlen
      exact ⟨b', v', by rw [run_bind, hr']; exact hrun', hb, hcut''⟩

theorem ite {p p' q q' : Parser α} {d : Prop} [Decidable d]
    (hp : d → CutsAt n behind kind c move p p') (hq : ¬d → CutsAt n behind kind c move q q') :
    CutsAt n behind kind c move (if d then p else q) (if d then p' else q') := by
  split
  · exact hp ‹_›
  · exact hq ‹_›

theorem under (hp : CutsAt n behind kind c move p p') (h h' : Hint) :
    CutsAt n behind kind c move (Parser.under h p) (Parser.under h' p') where
  closes s hs := .under (hp.closes _ hs)
  run hc s s' a u hcut hs hs' hrun hlen := by
    obtain ⟨v, hr, ms, rfl⟩ := exists_run_of_under hrun
    obtain ⟨a', v', hr', ha, hcut'⟩ := hp.run hc { s with hints := [] } { s' with hints := [] }
      a v hcut.ofHints hs hs' hr hlen
    obtain ⟨ms', hunder⟩ := exists_hints_of_run h' hr'
    exact ⟨a', _, hunder, ha, hcut'.ofHints⟩

theorem look {q q' : Parser γ} {f f' : γ → Parser β} (hq : Looks q) (hq' : Looks q')
    (hf : ∀ x x', CutsAt n behind kind c move' (f x) (f' x')) :
    CutsAt n behind kind c move' (q >>= f) (q' >>= f') where
  closes s hs := by
    obtain ⟨x, hx⟩ := hq s
    exact .look x hx ((hf x x).closes s hs)
  run hc s s' b v hcut hs hs' hrun hlen := by
    obtain ⟨x, hx⟩ := hq s
    obtain ⟨x', hx'⟩ := hq' s'
    rw [run_bind, hx] at hrun
    rw [run_bind, hx']
    exact (hf x x').run hc s s' b v hcut hs hs' hrun hlen

/-- Looks at the token behind the next one where both are read. -/
theorem peekNext {f f' : TokenKind → Parser β}
    (hreads : ∀ s : ParserState, s.kindAt 0 = kind → ∀ k,
      Reads (f k) s fun _ read => 2 ≤ read.length)
    (hf : ∀ k, CutsAt n behind kind c move' (f k) (f' k)) :
    CutsAt n behind kind c move' (peekAt 1 >>= f) (peekAt 1 >>= f') where
  closes s hs := .look (s.kindAt 1) rfl ((hf _).closes s hs)
  run hc s s' b v hcut hs hs' hrun hlen := by
    have hpeek : ∀ s, (peekAt 1).run s = (.ok (s.kindAt 1), s) := fun _ => rfl
    rw [run_bind, hpeek] at hrun
    obtain ⟨read, hv, hread⟩ := hreads s hs _ hcut.final b v hrun
    have hlength := hcut.length_eq
    have hlength' := hv.length_eq
    rw [run_bind, hpeek, hcut.kindAt_eq (by omega)]
    exact (hf _).run hc s s' b v hcut hs hs' hrun hlen

/-- Reads the token whose kind is known. -/
theorem advance {f f' : Token → Parser β} (hk : kind.endsStatement = false) (hdot : kind ≠ .dot)
    (hf : ∀ t t', Cuts n behind (c ∧ t.Shifts n t') move' (f t) (f' t')) :
    CutsAt n behind kind c move' (Parser.advance >>= f) (Parser.advance >>= f') where
  closes s hs := .advance hs hk fun t u _ ht => ((hf t t).closes u).mono fun _ more hmore =>
    ⟨List.cons_ne_nil _ _, (Finished.singleton (ht ▸ hdot)).append hmore⟩
  run hc s s' b v hcut _ hs' hrun hlen := by
    obtain ⟨t', ts', hts', -⟩ := exists_of_kindAt hs' hk
    obtain ⟨hshifts, hcut'⟩ := hcut.advance (by simp [hts'])
    exact (hf s.current s'.current).run ⟨hc, hshifts⟩ s.advance s'.advance b v hcut' hrun hlen

/-- The token may be a point if more is read behind it. -/
theorem advanceInto {q q' : Parser β} (hk : kind.endsStatement = false) (hconsumes : Consumes q)
    (hq : Cuts n behind c move' q q') :
    CutsAt n behind kind c move' (Parser.advance >>= fun _ => q)
      (Parser.advance >>= fun _ => q') where
  closes s hs := .advance hs hk fun t u _ _ => by
    intro hfinal b v hrun
    obtain ⟨more, hv, hne, hmore⟩ := (hq.at_kind hconsumes).closes u rfl hfinal b v hrun
    exact ⟨more, hv, List.cons_ne_nil _ _, Finished.append_right [t] hne hmore⟩
  run hc s s' b v hcut _ hs' hrun hlen := by
    obtain ⟨t', ts', hts', -⟩ := exists_of_kindAt hs' hk
    exact hq.run hc s.advance s'.advance b v (hcut.advance (by simp [hts'])).2 hrun hlen

/-- Looks at the token whose kind is known. -/
theorem current {f f' : Token → Parser β} (hk : kind.endsStatement = false)
    (hf : ∀ t t', CutsAt n behind kind (c ∧ t.Shifts n t') move' (f t) (f' t')) :
    CutsAt n behind kind c move' (Parser.current >>= f) (Parser.current >>= f') where
  closes s hs := .look s.current rfl ((hf _ s.current).closes s hs)
  run hc s s' b v hcut hs hs' hrun hlen := by
    obtain ⟨t', ts', hts', -⟩ := exists_of_kindAt hs' hk
    obtain ⟨hshifts, -⟩ := hcut.advance (by simp [hts'])
    exact (hf s.current s'.current).run ⟨hc, hshifts⟩ s s' b v hcut hs hs' hrun hlen

end CutsAt

/-- Whether a parser reads nothing at the end and gives something. -/
def Rests (p : Parser α) (a : α) : Prop :=
  ∀ s : ParserState, s.tokens = [] → p.run s = (.ok a, s)

namespace Rests

variable {p : Parser α} {f : α → Parser β} {a : α} {b : β}

theorem pure (a : α) : Rests (pure a) a :=
  fun _ _ => rfl

theorem bind (hp : Rests p a) (hf : Rests (f a) b) : Rests (p >>= f) b := by
  intro s hs
  rw [run_bind, hp s hs]
  exact hf s hs

theorem check (hk : kind ≠ .eof) : Rests (check kind) false := by
  intro s hs
  have hkind : s.kindAt 0 = .eof := by simp [kindAt, hs]
  have hfalse : decide (s.kindAt 0 = kind) = false := by simpa [hkind] using hk.symm
  rw [← hfalse]
  rfl

theorem eat (hk : kind ≠ .eof) : Rests (eat kind) false :=
  (check hk).bind (.pure false)

theorem peek {f : TokenKind → Parser β} (hf : Rests (f .eof) b) : Rests (Parser.peek >>= f) b := by
  intro s hs
  have hkind : s.kindAt 0 = .eof := by simp [kindAt, hs]
  have hrun : Parser.peek.run s = (.ok (s.kindAt 0), s) := rfl
  rw [run_bind, hrun, hkind]
  exact hf s hs

theorem many {p : Parser (Option α)} (hp : Rests p none) : Rests (many p) [] :=
  fun s hs => hp.bind (.pure []) s hs

end Rests

namespace Cuts

variable {p p' : Parser α} {f f' : α → Parser β} {yes yes' no no' : Parser β}

theorem ifCheck (hk : kind ≠ .eof) (hyes : CutsAt n behind kind c move' yes yes')
    (hno : Cuts n behind c move' no no') :
    Cuts n behind c move' (check kind >>= fun b => if b then yes else no)
      (check kind >>= fun b => if b then yes' else no') where
  closes s := .ifCheck (fun hs => (hyes.closes s hs).mono fun _ _ => And.right) (hno.closes s)
  run hc s s' b v hcut hrun hlen := by
    have hcheck : ∀ s, (check kind).run s = (.ok (decide (s.kindAt 0 = kind)), s) := fun _ => rfl
    rw [run_bind, hcheck] at hrun
    rw [run_bind, hcheck]
    by_cases hs : s.kindAt 0 = kind
    · rw [decide_eq_true hs] at hrun
      have hs' := (hyes.kindAt_eq hcut hs hrun hlen).2
      rw [decide_eq_true hs']
      exact hyes.run hc s s' b v hcut hs hs' hrun hlen
    · have hs' : s'.kindAt 0 ≠ kind := fun hs' => hs (hcut.kindAt_of_ne hs' hk)
      rw [decide_eq_false hs] at hrun
      rw [decide_eq_false hs']
      exact hno.run hc s s' b v hcut hrun hlen

theorem ifEat (hk : kind.endsStatement = false) (hdot : kind ≠ .dot)
    (hyes : Cuts n behind c move' yes yes') (hno : Cuts n behind c move' no no') :
    Cuts n behind c move' (eat kind >>= fun b => if b then yes else no)
      (eat kind >>= fun b => if b then yes' else no') := by
  rw [ifEat_bind, ifEat_bind]
  have hkind : kind ≠ .eof := by rintro rfl; cases hk
  exact .ifCheck hkind (.advance hk hdot fun _ _ => hyes.weaken And.left) hno

theorem expect {f f' : Token → Parser β} {what : String} (hk : kind.endsStatement = false)
    (hdot : kind ≠ .dot) (hf : ∀ t t', Cuts n behind (c ∧ t.Shifts n t') move' (f t) (f' t')) :
    Cuts n behind c move' (Parser.expect kind what >>= f) (Parser.expect kind what >>= f') := by
  rw [expect_bind, expect_bind]
  have hkind : kind ≠ .eof := by rintro rfl; cases hk
  exact .ifCheck hkind (.advance hk hdot hf) (.of_error fun _ _ _ hrun => nomatch hrun)

/-- A word that is expected under a hint. -/
theorem underExpectWord {q q' : Parser β} (word : Keyword) (hq : Cuts n behind c move' q q')
    (h h' : Hint) :
    Cuts n behind c move' (Parser.under h (expectWord word) >>= fun _ => q)
      (Parser.under h' (expectWord word) >>= fun _ => q') := by
  have hsplit : ∀ (h : Hint) (q : Parser β),
      (Parser.under h (expectWord word) >>= fun _ => q) =
        (Parser.under h (expectWord word >>= fun _ => Pure.pure ()) >>= fun _ => q) := by
    intro h q
    rw [← under_unit, bind_assoc]
    rfl
  have hword : Cuts n behind c id (expectWord word >>= fun _ => Pure.pure ())
      (expectWord word >>= fun _ => Pure.pure ()) :=
    .expect rfl nofun fun _ _ => .pure fun _ => rfl
  rw [hsplit, hsplit]
  exact .bindId (hword.under h h') fun _ => hq

/-- Looking some tokens ahead, which are all read if they are as wanted. -/
theorem ifAhead {q q' : Parser β} (sees : ParserState → Bool) (width : Nat)
    (hq : ∀ s, q.run s = if sees s then yes.run s else no.run s)
    (hq' : ∀ s, q'.run s = if sees s then yes'.run s else no'.run s)
    (hsame : ∀ s s', Cut n behind s s' → width ≤ s'.tokens.length → sees s' = sees s)
    (hmore : ∀ s s', Cut n behind s s' → sees s' = true → sees s = true)
    (hreads : ∀ s, sees s = true →
      Reads yes s fun _ read => width ≤ read.length ∧ Finished read)
    (hyes : c → ∀ s s' b v, Cut n behind s s' → sees s = true → sees s' = true →
      width ≤ s'.tokens.length → yes.run s = (.ok b, v) → behind.length ≤ v.tokens.length →
        ∃ b' v', yes'.run s' = (.ok b', v') ∧ b = move' b' ∧ Cut n behind v v')
    (hno : Cuts n behind c move' no no') : Cuts n behind c move' q q' where
  closes s hfinal b v hrun := by
    rw [hq] at hrun
    split at hrun
    · next hs => exact ((hreads s hs).mono fun _ _ => And.right) hfinal b v hrun
    · exact hno.closes s hfinal b v hrun
  run hc s s' b v hcut hrun hlen := by
    rw [hq] at hrun
    rw [hq']
    split at hrun
    · next hs =>
      obtain ⟨read, hv, hread, -⟩ := hreads s hs hcut.final b v hrun
      have hlength := hcut.length_eq
      have hlength' := hv.length_eq
      have hwidth : width ≤ s'.tokens.length := by omega
      have hs' : sees s' = true := (hsame s s' hcut hwidth).trans hs
      rw [if_pos hs']
      exact hyes hc s s' b v hcut hs hs' hwidth hrun hlen
    · next hs =>
      rw [if_neg fun hs' => hs (hmore s s' hcut hs')]
      exact hno.run hc s s' b v hcut hrun hlen

/-- Looking for two kinds in a row, of which both are read. -/
theorem ifBoth {second : TokenKind} (hk : kind ≠ .eof) (hk' : second ≠ .eof)
    (hreads : ∀ s, s.kindAt 0 = kind → s.kindAt 1 = second →
      Reads yes s fun _ read => 2 ≤ read.length ∧ Finished read)
    (hyes : c → ∀ s s' b v, Cut n behind s s' → s.kindAt 0 = kind → s'.kindAt 0 = kind →
      2 ≤ s'.tokens.length → yes.run s = (.ok b, v) → behind.length ≤ v.tokens.length →
        ∃ b' v', yes'.run s' = (.ok b', v') ∧ b = move' b' ∧ Cut n behind v v')
    (hno : Cuts n behind c move' no no') :
    Cuts n behind c move'
      (check kind >>= fun b => peekAt 1 >>= fun k => if b && k == second then yes else no)
      (check kind >>= fun b => peekAt 1 >>= fun k => if b && k == second then yes' else no') := by
  let sees (s : ParserState) : Bool := s.kindAt 0 = kind && s.kindAt 1 == second
  have hlook : ∀ (yes no : Parser β) s,
      (check kind >>= fun b => peekAt 1 >>= fun k => if b && k == second then yes else no).run s =
        if sees s then yes.run s else no.run s := by
    intro yes no s
    have hcheck : (check kind).run s = (.ok (decide (s.kindAt 0 = kind)), s) := rfl
    have hpeek : (peekAt 1).run s = (.ok (s.kindAt 1), s) := rfl
    rw [run_bind, hcheck]
    dsimp only
    rw [run_bind, hpeek]
    dsimp only [sees]
    split <;> rfl
  have hsees : ∀ {s}, sees s = true ↔ s.kindAt 0 = kind ∧ s.kindAt 1 = second := by simp [sees]
  refine ifAhead sees 2 (hlook yes no) (hlook yes' no') (fun s s' hcut hlen => ?_)
    (fun s s' hcut hs' => ?_) (fun s hs => ?_) (fun hc s s' b v hcut hs hs' => ?_) hno
  · simp only [sees, hcut.kindAt_eq (show 0 < _ by omega), hcut.kindAt_eq (show 1 < _ by omega)]
  · have hs' := hsees.mp hs'
    exact hsees.mpr ⟨hcut.kindAt_of_ne hs'.1 hk, hcut.kindAt_of_ne hs'.2 hk'⟩
  · exact hreads s (hsees.mp hs).1 (hsees.mp hs).2
  · exact hyes hc s s' b v hcut (hsees.mp hs).1 (hsees.mp hs').1

/-- Every kind that is seen is read, or it is an error. -/
theorem peek {f f' : TokenKind → Parser β}
    (hf : ∀ k, CutsAt n behind k c move' (f k) (f' k)) :
    Cuts n behind c move' (Parser.peek >>= f) (Parser.peek >>= f') where
  closes s := .peek fun k hk => ((hf k).closes s hk).mono fun _ _ => And.right
  run hc s s' b v hcut hrun hlen := by
    have hpeek : ∀ s, Parser.peek.run s = (.ok (s.kindAt 0), s) := fun _ => rfl
    rw [run_bind, hpeek] at hrun
    rw [run_bind, hpeek]
    have hs' := ((hf _).kindAt_eq hcut rfl hrun hlen).2
    rw [hs']
    exact (hf _).run hc s s' b v hcut rfl hs' hrun hlen

/-- Some kinds are read, and nothing comes of the others and of the end. -/
theorem peekOr {f f' : TokenKind → Parser β} {b b' : β} (hend : f' .eof = Pure.pure b')
    (hb : c → b = move' b') (hf : ∀ k, CutsAt n behind k c move' (f k) (f' k) ∨
      f k = Pure.pure b ∧ f' k = Pure.pure b') :
    Cuts n behind c move' (Parser.peek >>= f) (Parser.peek >>= f') where
  closes s := .peek fun k hk => by
    rcases hf k with hread | ⟨hidle, -⟩
    · exact (hread.closes s hk).mono fun _ _ => And.right
    · rw [hidle]
      exact .pure .nil
  run hc s s' d v hcut hrun hlen := by
    have hpeek : ∀ s, Parser.peek.run s = (.ok (s.kindAt 0), s) := fun _ => rfl
    rw [run_bind, hpeek] at hrun
    rw [run_bind, hpeek]
    dsimp only at hrun ⊢
    rcases hf (s.kindAt 0) with hread | ⟨hidle, hidle'⟩
    · have hs' := (hread.kindAt_eq hcut rfl hrun hlen).2
      rw [hs']
      exact hread.run hc s s' d v hcut rfl hs' hrun hlen
    · have hs' : f' (s'.kindAt 0) = Pure.pure b' := by
        rcases hcut.kindAt_cases 0 with heq | heof
        · rw [heq, hidle']
        · rw [heof, hend]
      rw [hidle] at hrun
      rw [hs']
      exact (Cuts.pure hb).run hc s s' d v hcut hrun hlen

/-- Looks at the next token, which is read, or it is an error. -/
theorem current {f f' : Token → Parser β}
    (hf : ∀ t t', t.kind = t'.kind →
      CutsAt n behind t.kind (c ∧ t.Shifts n t') move' (f t) (f' t')) :
    Cuts n behind c move' (Parser.current >>= f) (Parser.current >>= f') := by
  have hkind : ∀ s : ParserState, s.final.kind = .eof → s.kindAt 0 = s.current.kind := by
    intro s hfinal
    cases hs : s.tokens <;> simp [kindAt, ParserState.current, hs, hfinal]
  constructor
  · intro s hfinal b v hrun
    obtain ⟨read, hv, -, hread⟩ :=
      (hf s.current s.current rfl).closes s (hkind s hfinal) hfinal b v hrun
    exact ⟨read, hv, hread⟩
  · intro hc s s' b v hcut hrun hlen
    have hs := hkind s hcut.final
    obtain ⟨hne, hs'⟩ := (hf s.current s.current rfl).kindAt_eq hcut hs hrun hlen
    have hshifts := (hcut.advance hne).1
    exact (hf _ _ hshifts.kind).run ⟨hc, hshifts⟩ s s' b v hcut hs hs' hrun hlen

/-- What something begins with. -/
theorem first {f f' : Token → Parser β} (hconsumes : Consumes (Parser.current >>= f))
    (hf : ∀ t t', Cuts n behind (c ∧ t.Shifts n t') move' (f t) (f' t')) :
    Cuts n behind c move' (Parser.current >>= f) (Parser.current >>= f') where
  closes s := .look s.current rfl ((hf _ s.current).closes s)
  run hc s s' b v hcut hrun hlen := by
    obtain ⟨read, hv, hread⟩ := hconsumes s hcut.final b v hrun
    have hlength := hcut.length_eq
    have hlength' := hv.length_eq
    have hpos := List.length_pos_iff.mpr hread
    have hne : s'.tokens ≠ [] := List.length_pos_iff.mp (by omega)
    exact (hf s.current s'.current).run ⟨hc, (hcut.advance hne).1⟩ s s' b v hcut hrun hlen

/-- What something begins with, which is nothing if no token is read. -/
theorem start {f f' : Token → Parser (Option β)}
    (hsome : ConsumesForSome (Parser.current >>= f))
    (hrests : ∀ t', Rests (f' t') none)
    (hf : ∀ t t', Cuts n behind (c ∧ t.Shifts n t') (Option.map move') (f t) (f' t')) :
    Cuts n behind c (Option.map move') (Parser.current >>= f) (Parser.current >>= f') where
  closes s := .look s.current rfl ((hf _ s.current).closes s)
  run hc s s' b v hcut hrun hlen := by
    by_cases hne : s'.tokens = []
    · obtain ⟨read, hv, hread⟩ := hsome s hcut.final b v hrun
      have hlength := hcut.length_eq
      have hlength' := hv.length_eq
      rw [hne, List.length_nil] at hlength
      obtain rfl : read = [] := List.eq_nil_of_length_eq_zero (by omega)
      have hnone : b = none := by simpa using hread
      subst hnone
      exact ⟨none, s', hrests s'.current s' hne, rfl, hcut.took_nil hv⟩
    · exact (hf s.current s'.current).run ⟨hc, (hcut.advance hne).1⟩ s s' b v hcut hrun hlen

theorem congr (h : Cuts n behind c move p p') {q : Parser α} (hq : ∀ s, q.run s = p'.run s) :
    Cuts n behind c move p q where
  closes := h.closes
  run hc s s' a u hcut hrun hlen := by
    rw [hq]
    exact h.run hc s s' a u hcut hrun hlen

/-- A parser that is bounded by the tokens left. -/
theorem bounded {p : Nat → Parser α} (h : ∀ m, Cuts n behind c move (p m) p') :
    Cuts n behind c move (get >>= fun s => p (s.tokens.length + 1)) p' :=
  ⟨fun s => (h _).closes s, fun hc s => (h _).run hc s⟩

/-- Rounds that are counted by the tokens left, if there may as well be more. -/
theorem rounds {q q' : Nat → Parser β} (hq : ∀ m, Cuts n behind c move' (q m) (q' m))
    (hrounds : ∀ m m' s', s'.final.kind = .eof → s'.tokens.length < m → m ≤ m' →
      (q' m).run s' = (q' m').run s') :
    Cuts n behind c move' (get >>= fun s => q (s.tokens.length + 1))
      (get >>= fun s => q' (s.tokens.length + 1)) where
  closes s := (hq _).closes s
  run hc s s' b v hcut hrun hlen := by
    have hlength := hcut.length_eq
    have hsame := hrounds (s'.tokens.length + 1) (s.tokens.length + 1) s' hcut.final'
      (Nat.lt_succ_self _) (by omega)
    obtain ⟨b', v', hrun', hb, hcut'⟩ := (hq _).run hc s s' b v hcut hrun hlen
    exact ⟨b', v', hsame.trans hrun', hb, hcut'⟩

end Cuts

/-! ### What only looks -/

theorem check_looks (kind : TokenKind) : Looks (check kind) := fun _ => ⟨_, rfl⟩

theorem hint_looks : Looks hint := fun _ => ⟨_, rfl⟩

theorem columnsHint_looks (keywords : List String) : Looks (columnsHint keywords) :=
  fun _ => ⟨_, rfl⟩

theorem tablesHint_looks : Looks tablesHint := fun _ => ⟨_, rfl⟩

theorem columnsOfHint_looks (table : Ident) : Looks (columnsOfHint table) := fun _ => ⟨_, rfl⟩

theorem keywordsHint_looks (keywords : List String) : Looks (keywordsHint keywords) :=
  fun _ => ⟨_, rfl⟩

end Parser
end SqlAnalysis

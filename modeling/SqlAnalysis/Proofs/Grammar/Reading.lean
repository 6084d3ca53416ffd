import SqlAnalysis.Proofs.Grammar.Pieces
import SqlAnalysis.Proofs.Syntax.Outlines

/-!
# What a parser reads

A contract for a single run of a parser that gives something: how its result is related
to the tokens it took. Unlike agreement of two runs it speaks about spans, and nothing is
said about failures, so that no room for nesting has to be counted.
-/
namespace SqlAnalysis

open Outline

namespace Parser

open ParserState

variable {α β : Type}

/-- Whether what a parser gives at a state is related to the tokens it reads. -/
def Reads (p : Parser α) (s : ParserState) (Q : α → List Token → Prop) : Prop :=
  s.final.kind = .eof → ∀ a u, p.run s = (.ok a, u) → ∃ read, s.Took read u ∧ Q a read

namespace Reads

variable {s : ParserState} {p : Parser α} {f : α → Parser β} {kind : TokenKind}
  {P : α → List Token → Prop} {Q : β → List Token → Prop}

theorem of_agree (h : InStep [] s s → Agree p p s s fun a read _ => P a read) : Reads p s P := by
  intro hfinal a u hrun
  have hagree := h (.refl hfinal)
  rw [Agree, hrun] at hagree
  cases hagree with
  | ok hu _ hP => exact ⟨_, hu, hP⟩

theorem pure {a : α} (h : P a []) : Reads (pure a) s P := by
  intro _ b u hrun
  obtain ⟨rfl, rfl⟩ : a = b ∧ s = u := by cases hrun; exact ⟨rfl, rfl⟩
  exact ⟨[], .refl s, h⟩

theorem failExpected (what : String) : Reads (failExpected what) s P :=
  fun _ _ _ hrun => nomatch hrun

theorem mono {P' : α → List Token → Prop} (h : Reads p s P)
    (himp : ∀ a read, P a read → P' a read) : Reads p s P' := by
  intro hfinal a u hrun
  obtain ⟨read, hu, hP⟩ := h hfinal a u hrun
  exact ⟨read, hu, himp a read hP⟩

theorem bind (hp : Reads p s P)
    (hf : ∀ a read u, s.Took read u → P a read →
      Reads (f a) u fun b more => Q b (read ++ more)) : Reads (p >>= f) s Q := by
  intro hfinal b v hrun
  rw [run_bind] at hrun
  rcases hr : p.run s with ⟨_ | a, u⟩
  · rw [hr] at hrun
    cases hrun
  · rw [hr] at hrun
    obtain ⟨read, hu, hP⟩ := hp hfinal a u hr
    obtain ⟨more, hv, hQ⟩ := hf a read u hu hP (hu.final ▸ hfinal) b v hrun
    exact ⟨read ++ more, hu.trans hv, hQ⟩

/-- A result that is put under a constructor. -/
theorem map {g : α → β} (hp : Reads p s P) (h : ∀ a read, P a read → Q (g a) read) :
    Reads (do return g (← p)) s Q :=
  hp.bind fun a read _ _ hP => .pure (by simpa using h a read hP)

/-- A parser that only looks can be left out. -/
theorem look (a : α) (hp : p.run s = (.ok a, s)) (hf : Reads (f a) s Q) : Reads (p >>= f) s Q := by
  intro hfinal b v hrun
  rw [run_bind, hp] at hrun
  exact hf hfinal b v hrun

theorem ite {c : Prop} [Decidable c] {p' : Parser α} (h : c → Reads p s P)
    (h' : ¬c → Reads p' s P) : Reads (if c then p else p') s P := by
  split
  · exact h ‹_›
  · exact h' ‹_›

theorem peek {f : TokenKind → Parser β} (hf : ∀ k, s.kindAt 0 = k → Reads (f k) s Q) :
    Reads (Parser.peek >>= f) s Q :=
  look (s.kindAt 0) rfl (hf _ rfl)

theorem check {f : Bool → Parser β}
    (hf : ∀ b, (b = true → s.kindAt 0 = kind) → Reads (f b) s Q) :
    Reads (Parser.check kind >>= f) s Q :=
  look (decide (s.kindAt 0 = kind)) rfl (hf _ of_decide_eq_true)

theorem ifCheck {yes no : Parser β} (hyes : s.kindAt 0 = kind → Reads yes s Q)
    (hno : Reads no s Q) : Reads (Parser.check kind >>= fun b => if b then yes else no) s Q :=
  check fun _ hb => ite (fun h => hyes (hb h)) fun _ => hno

/-- Reads a token whose kind has been looked at. -/
theorem advance {f : Token → Parser β} (hs : s.kindAt 0 = kind)
    (hk : kind.endsStatement = false)
    (hf : ∀ t u, s.Took [t] u → t.kind = kind → Reads (f t) u fun b more => Q b (t :: more)) :
    Reads (Parser.advance >>= f) s Q := by
  obtain ⟨t, ts, hts, ht⟩ := exists_of_kindAt hs hk
  have hcurrent : s.current = t := by simp [ParserState.current, hts]
  have hadvance : Reads Parser.advance s fun a read => a = t ∧ read = [t] := by
    intro _ a u hrun
    obtain ⟨rfl, rfl⟩ : s.current = a ∧ s.advance = u := by cases hrun; exact ⟨rfl, rfl⟩
    exact ⟨[t], took_advance hts, hcurrent, rfl⟩
  refine hadvance.bind ?_
  rintro _ _ u hu ⟨rfl, rfl⟩
  exact hf _ u hu ht

theorem ifEat {yes no : Parser β} (hk : kind.endsStatement = false)
    (hyes : ∀ t u, s.Took [t] u → t.kind = kind → Reads yes u fun b more => Q b (t :: more))
    (hno : Reads no s Q) : Reads (eat kind >>= fun b => if b then yes else no) s Q := by
  unfold eat
  simp only [bind_assoc]
  refine check fun b hb => ?_
  cases b with
  | true =>
    simp only [if_true, bind_assoc, pure_bind]
    exact advance (hb rfl) hk hyes
  | false =>
    simp only [Bool.false_eq_true, if_false, pure_bind]
    exact hno

/-- Reads a token that must be there. -/
theorem expect {f : Token → Parser β} {what : String} (hk : kind.endsStatement = false)
    (hf : ∀ t u, s.Took [t] u → t.kind = kind → Reads (f t) u fun b more => Q b (t :: more)) :
    Reads (Parser.expect kind what >>= f) s Q := by
  unfold Parser.expect
  simp only [bind_assoc]
  refine check fun b hb => ?_
  cases b with
  | true => exact advance (hb rfl) hk hf
  | false => exact fun _ _ _ hrun => nomatch hrun

/-- The span of all that was read since an earlier state. -/
theorem spanFrom {f : Span → Parser β} {before : ParserState} {read : List Token} {first : Token}
    (hread : before.Took read s) (hfirst : first ∈ read.head?)
    (hf : ∀ span, Span.Runs span read → Reads (f span) s Q) :
    Reads (Parser.spanFrom first.span >>= f) s Q :=
  look ⟨first.span.start, max s.lastSpan.stop first.span.stop⟩ rfl (hf _ (hread.runs hfirst))

/-- Hints are not looked at. -/
theorem under {h : Hint} (hp : Reads p { s with hints := [] } P) :
    Reads (Parser.under h p) s P := by
  intro hfinal a u hrun
  rcases hr : p.run { s with hints := [] } with ⟨result, v⟩
  rw [run_under, hr] at hrun
  obtain ⟨rfl, rfl⟩ := Prod.mk.inj hrun
  obtain ⟨read, hu, hP⟩ := hp hfinal a v hr
  exact ⟨read, ⟨hu.tokens, hu.final, hu.lastSpan⟩, hP⟩

end Reads

/-! ### Repetitions -/

section

variable {p : Parser α} {P : α → List Token → Prop} {kind : TokenKind}

theorem after_reads (hk : kind.endsStatement = false) (hp : ∀ s, Reads p s P) (s : ParserState) :
    Reads (after kind p) s (Optional (Preceded kind P)) := by
  refine .ifEat hk (fun t u _ ht => ?_) (.pure .none)
  exact (hp u).map fun a read hP => .some (.mk ht hP)

theorem afterWord_reads (word : Keyword) (hp : ∀ s, Reads p s P) (s : ParserState) :
    Reads (afterWord word p) s (Optional (Preceded (.keyword word) P)) :=
  after_reads rfl hp s

theorem manyUpTo_reads {p : Parser (Option α)} (hp : ∀ s, Reads p s (Optional P)) (n : Nat) :
    ∀ s, Reads (manyUpTo p n) s (Sequence P) := by
  induction n with
  | zero => exact fun s => .pure .nil
  | succ n ih =>
    intro s
    refine (hp s).bind fun a? read u _ hopt => ?_
    cases hopt with
    | none => exact .pure .nil
    | some ha =>
      exact (ih u).map fun as more hseq => .cons ha hseq

theorem many_reads {p : Parser (Option α)} (hp : ∀ s, Reads p s (Optional P)) (s : ParserState) :
    Reads (many p) s (Sequence P) :=
  .look s rfl (manyUpTo_reads hp _ s)

theorem commaSeparated_reads (hp : ∀ s, Reads p s P) (s : ParserState) :
    Reads (commaSeparated p) s (CommaList P) := by
  refine (hp s).bind fun a read u _ ha => ?_
  exact (many_reads (after_reads rfl hp) u).map fun as more hseq => .mk ha hseq

theorem unlessClosing_reads {p : Parser (List α)} {s : ParserState}
    (hp : Reads p s (CommaList P)) : Reads (unlessClosing p) s (Listed P) :=
  .ifCheck (fun _ => .pure .empty) (hp.mono fun _ _ => .items)

theorem atWord_reads {word : Keyword} {s : ParserState}
    (hp : s.kindAt 0 = .keyword word → Reads p s P) : Reads (atWord word p) s (Optional P) := by
  exact .ifCheck (fun hword => (hp hword).map fun a read ha => .some ha) (.pure .none)

end

theorem ident_reads (s : ParserState) : Reads ident s Ident.Spelled :=
  .of_agree fun h => ident_agree h.toExtends

theorem identList_reads (s : ParserState) :
    Reads identList s (Bracketed (CommaList Ident.Spelled)) :=
  .of_agree fun h => identList_agree h.toExtends

theorem alias?_reads (s : ParserState) : Reads alias? s AliasSpelled :=
  .of_agree alias?_agree

end Parser

/-! ### Outlines over the pieces of a token list -/

section

variable {α : Type} {R : α → List Token → Prop} {f : α → List Outline} {ts : List Token}

/-- What is laid over everything spelled is laid over its pieces. -/
theorem Optional.laid {g : Option α → List Outline} (hnone : g Option.none = [])
    (h : ∀ a ts, R a ts → Laid (g (Option.some a)) ts) {o : Option α} :
    Optional R o ts → Laid (g o) ts
  | .none => hnone ▸ .nil []
  | .some ha => h _ _ ha

theorem Preceded.laid (h : ∀ a ts, R a ts → Laid (f a) ts) {kind : TokenKind} (a : α)
    (ts : List Token) : Preceded kind R a ts → Laid (f a) ts
  | .mk (t := t) _ ha => (h _ _ ha).after [t]

theorem Sequence.laid (h : ∀ a ts, R a ts → Laid (f a) ts) {as : List α}
    (hseq : Sequence R as ts) : Laid (as.flatMap f) ts := by
  induction hseq with
  | nil => exact .nil _
  | cons ha _ ih =>
    rw [List.flatMap_cons]
    exact (h _ _ ha).append ih

theorem CommaList.laid (h : ∀ a ts, R a ts → Laid (f a) ts) {as : List α} :
    CommaList R as ts → Laid (as.flatMap f) ts
  | .mk ha hrest => by
    rw [List.flatMap_cons]
    exact (h _ _ ha).append (hrest.laid (Preceded.laid h))

/-! Things that have one outline each. -/

theorem Sequence.laid_map {g : α → Outline} (h : ∀ a ts, R a ts → (g a).Fills ts) {as : List α}
    (hseq : Sequence R as ts) : Laid (as.map g) ts := by
  rw [List.map_eq_flatMap]
  exact hseq.laid fun a ts ha => .of_fills (h a ts ha)

theorem CommaList.laid_map {g : α → Outline} (h : ∀ a ts, R a ts → (g a).Fills ts) {as : List α}
    (hlist : CommaList R as ts) : Laid (as.map g) ts := by
  rw [List.map_eq_flatMap]
  exact hlist.laid fun a ts ha => .of_fills (h a ts ha)

theorem Bracketed.laid {os : List Outline} {a : α} (h : ∀ ts, R a ts → Laid os ts) :
    Bracketed R a ts → Laid os ts
  | .mk _ ha _ => ((h _ ha).before [_]).after [_]

end

/-! ### Names -/

theorem Ident.Spelled.fills {name : Ident} {ts : List Token} (h : name.Spelled ts) :
    name.outline.Fills ts := by
  obtain ⟨t, rfl, hspan⟩ := h.exists_span
  rw [Ident.outline, hspan]
  exact .leaf t

theorem AliasSpelled.laid {label : Option Ident} {ts : List Token} :
    AliasSpelled label ts → Laid (labelOutlines label) ts
  | .none => .nil _
  | .plain _ hname => .of_fills hname.fills
  | .marked _ hname => (Laid.of_fills hname.fills).after [_]

/-- The names of a list in brackets. -/
theorem identList_laid {names : List Ident} {ts : List Token}
    (h : Bracketed (CommaList Ident.Spelled) names ts) : Laid (names.map Ident.outline) ts :=
  h.laid fun _ hnames => hnames.laid_map fun _ _ hname => hname.fills

end SqlAnalysis

import SqlAnalysis.Proofs.Grammar.Progress

/-!
# What parsers complain about

Whatever a parser complains about, it is one of the tokens that it was given, or the end of
the text. That holds of the steps of the grammar and is kept when they follow each other, as
no parser goes back. So every complaint about a script is about one of its tokens.
-/
namespace SqlAnalysis

namespace ParserState

variable {s after : ParserState} {read : List Token} {d : Diagnostic}

/-- The tokens that are left, with the one at the end of the text. -/
def upcoming (s : ParserState) : List Token :=
  s.tokens ++ [s.final]

theorem current_mem_upcoming (s : ParserState) : s.current ∈ s.upcoming := by
  unfold current upcoming
  cases s.tokens with
  | nil => exact List.mem_cons_self
  | cons t ts => exact List.mem_cons_self

theorem Took.upcoming_subset (h : s.Took read after) : after.upcoming ⊆ s.upcoming := by
  unfold upcoming
  rw [h.tokens, h.final, List.append_assoc]
  exact List.subset_append_right _ _

/-- Whether a complaint is about one of the tokens that are left. -/
def Blamed (s : ParserState) (d : Diagnostic) : Prop :=
  ∃ t ∈ s.upcoming, d.range = t.range

theorem blamed_current (s : ParserState) (message : String) :
    s.Blamed (.grammatical message s.current.range) :=
  ⟨s.current, s.current_mem_upcoming, rfl⟩

theorem Took.blamed (h : s.Took read after) (hd : after.Blamed d) : s.Blamed d := by
  obtain ⟨t, ht, hrange⟩ := hd
  exact ⟨t, h.upcoming_subset ht, hrange⟩

end ParserState

namespace Parser

variable {α β : Type} {p : Parser α}

/-- Whether a parser moves forward and, if it fails, complains about a token that it was
given. -/
structure Blames (p : Parser α) : Prop where
  forward : Forward p
  blamed : ∀ s d, (p.run s).1 = .error d → s.Blamed d

namespace Blames

theorem of_ok (hforward : Forward p) (h : ∀ s, ∃ a, (p.run s).1 = .ok a) : Blames p := by
  refine ⟨hforward, fun s d hd => ?_⟩
  obtain ⟨a, ha⟩ := h s
  rw [ha] at hd
  cases hd

theorem bind {f : α → Parser β} (hp : Blames p) (hf : ∀ a, Blames (f a)) : Blames (p >>= f) := by
  refine ⟨hp.forward.bind fun a => (hf a).forward, fun s d hd => ?_⟩
  obtain ⟨read, hread⟩ := hp.forward s
  have hblamed := hp.blamed s
  rw [run_bind] at hd
  rcases hrun : p.run s with ⟨e | a, u⟩
  · rw [hrun] at hd hblamed
    cases hd
    exact hblamed _ rfl
  · rw [hrun] at hd hread
    exact hread.blamed ((hf a).blamed u d hd)

theorem failExpected (what : String) : Blames (failExpected what : Parser α) := by
  refine ⟨Composed.forward (.failExpected what), fun s d hd => ?_⟩
  cases hd
  exact s.blamed_current _

/-- A parameter of a type is complained about after it was read. -/
theorem typeParam : Blames typeParam := by
  refine ⟨typeParam_forward, fun s d hd => ⟨s.current, s.current_mem_upcoming, ?_⟩⟩
  have hcurrent : Parser.run current s = (.ok s.current, s) := rfl
  have hadvance : Parser.run advance s = (.ok s.current, s.advance) := rfl
  rw [Parser.typeParam, run_bind, hcurrent] at hd
  dsimp only at hd
  split at hd
  · rw [run_bind, hadvance] at hd
    dsimp only at hd
    split at hd <;> cases hd
    rfl
  · cases hd
    rfl

theorem under (hp : Blames p) (h : Hint) : Blames (Parser.under h p) :=
  ⟨hp.forward.under h, fun s d hd => hp.blamed { s with hints := [] } d hd⟩

end Blames

/-- Whatever parsers are put together from that complain about what they were given does so
too. -/
theorem Composed.blames (h : Composed Blames p) : Blames p := by
  induction h with
  | base hp => exact hp
  | pure a => exact .of_ok (.pure a) fun s => ⟨a, rfl⟩
  | bind _ _ hp hf => exact hp.bind hf
  | state => exact .of_ok (Composed.forward .state) fun s => ⟨s, rfl⟩
  | advance => exact .of_ok (Composed.forward .advance) fun s => ⟨s.current, rfl⟩
  | failExpected what => exact .failExpected what
  | typeParam => exact .typeParam
  | under _ h hp => exact hp.under h

end Parser

namespace Script

open ParserState

variable {s : ParserState}

/-- A round complains about the tokens that it finds. -/
theorem step_blamed (s : ParserState) : ∀ d ∈ (step s).2.1, s.Blamed d := by
  have hstatement : Parser.Blames Parser.statement := Parser.statement_composed.blames
  obtain ⟨read, hread⟩ := hstatement.forward s
  have hblamed := hstatement.blamed s
  unfold step
  split
  · rcases hrun : Parser.statement.run s with ⟨e | statement, u⟩
    · rw [hrun] at hblamed
      simpa using hblamed e rfl
    · rw [hrun] at hread
      dsimp only
      split
      · simp
      · have hexpected : u.Blamed (u.expected "';' or end of input") := u.blamed_current _
        simpa using hread.blamed hexpected
  · simpa using s.blamed_current _

theorem readFrom_blamed (n : Nat) : ∀ separated (s : ParserState), s.tokens.length < n →
    ∀ d ∈ (readFrom separated s).2.1, s.Blamed d := by
  induction n with
  | zero =>
    intro _ _ hn
    omega
  | succ n ih =>
    intro separated s hn
    obtain ⟨gap, hgap⟩ := exists_took_skipGap separated s
    by_cases hnil : (skipGap separated s).tokens = []
    · rw [readFrom_of_nil hnil]
      exact nofun
    · obtain ⟨read, hread, htook⟩ := step_exists_took hnil
      have hlater := hgap.trans htook
      have hlength := hlater.length_eq
      have hpos := List.length_pos_iff.mpr hread
      rw [readFrom_of_ne_nil rfl hnil, nextRound_eq hnil]
      intro d hd
      rcases List.mem_append.mp hd with hd | hd
      · exact hgap.blamed (step_blamed _ d hd)
      · rw [List.length_append] at hlength
        exact hlater.blamed (ih false _ (by omega) d hd)

/-- Every complaint about the grammar of some tokens has the range of one of them, if the
end of the text is there. -/
theorem errors_blame (tokens : List Token) (hend : ∃ t ∈ tokens, t.kind = .eof) :
    ∀ d ∈ (ofTokens tokens).errors, ∃ t ∈ tokens, d.range = t.range := by
  intro d hd
  obtain ⟨t, ht, hrange⟩ := readFrom_blamed _ true (start tokens) (Nat.lt_succ_self _) d hd
  refine ⟨t, ?_, hrange⟩
  rcases List.mem_append.mp ht with ht | ht
  · exact List.mem_of_mem_filter ((List.takeWhile_sublist _).subset ht)
  · obtain ⟨last, hlast, hkind⟩ := hend
    have hfound : ∃ t, tokens.find? (fun t => t.kind = .eof) = some t := by
      rw [← Option.isSome_iff_exists, List.find?_isSome]
      exact ⟨last, hlast, by simpa using hkind⟩
    obtain ⟨t', ht'⟩ := hfound
    have hfinal : (start tokens).final = t' := by simp [start, ht']
    rw [List.mem_singleton.mp ht, hfinal]
    exact List.mem_of_find?_eq_some ht'

end Script
end SqlAnalysis

import Mathlib.Data.List.TakeWhile
import SqlAnalysis.Proofs.Grammar.Statements
import SqlAnalysis.Token.Lexer

/-!
# Statements on both sides of a semicolon

Reading a script never looks past a semicolon before the statement in front of it
is finished, be it read or given up. One round of the reader therefore does the
same whether the script ends or goes on behind a semicolon, and by induction on
the tokens a script is read piece by piece.
-/
namespace SqlAnalysis

namespace ParserState

variable {tail : List Token} {s s' : ParserState}

theorem foldl_advance (xs : List Token) :
    ∀ (s : ParserState) ys, s.tokens = xs ++ ys →
      (xs.foldl (fun s _ => s.advance) s).tokens = ys ∧
        (xs.foldl (fun s _ => s.advance) s).final = s.final := by
  induction xs with
  | nil => exact fun s ys h => ⟨h, rfl⟩
  | cons x xs ih =>
    intro s ys h
    obtain ⟨htokens, hfinal⟩ := ih s.advance ys (by simp [advance, h])
    exact ⟨htokens, hfinal.trans (by simp [advance, h])⟩

theorem tokens_skipWhile (p : TokenKind → Bool) (s : ParserState) :
    (s.skipWhile p).tokens = s.tokens.dropWhile fun t => p t.kind :=
  (foldl_advance _ s _ List.takeWhile_append_dropWhile.symm).1

theorem final_skipWhile (p : TokenKind → Bool) (s : ParserState) :
    (s.skipWhile p).final = s.final :=
  (foldl_advance _ s _ List.takeWhile_append_dropWhile.symm).2

/-- Skipping stops at a semicolon. -/
theorem Extends.synchronize (h : Extends tail s s') :
    Extends tail s.synchronize s'.synchronize where
  ends := h.ends
  tokens := by
    unfold ParserState.synchronize
    rw [tokens_skipWhile, tokens_skipWhile, h.tokens, List.dropWhile_append]
    split
    · rename_i hempty
      rw [List.isEmpty_iff.mp hempty, List.nil_append]
      cases tail with
      | nil => rfl
      | cons t ts =>
        have ht := h.head_kind
        simp [ht, isSkipped]
    · rfl
  final := by
    unfold ParserState.synchronize
    rw [final_skipWhile, h.final]
  final' := by
    unfold ParserState.synchronize
    rw [final_skipWhile, h.final']

theorem Extends.advance (h : Extends tail s s') (hs : s.tokens ≠ []) :
    Extends tail s.advance s'.advance := by
  obtain ⟨t, ts, hts⟩ := List.exists_cons_of_ne_nil hs
  have hts' : s'.tokens = t :: (ts ++ tail) := by rw [h.tokens, hts, List.cons_append]
  exact h.after (took_advance hts) (took_advance hts')

theorem Extends.orSkip {after after' : ParserState} (h : Extends tail s s') (hs : s.tokens ≠ [])
    (hafter : Extends tail after after') : Extends tail (s.orSkip after) (s'.orSkip after') := by
  have hlen := h.length_eq
  have hlen' := hafter.length_eq
  have hadvance := h.advance hs
  unfold ParserState.orSkip
  by_cases hlt : after.tokens.length < s.tokens.length
  · rw [if_pos hlt, if_pos (by omega)]
    exact hafter
  · rw [if_neg hlt, if_neg (by omega)]
    exact ⟨hadvance.ends, hadvance.tokens, hadvance.final, hadvance.final'⟩

theorem Extends.current_eq (h : Extends tail s s') (hs : s.tokens ≠ []) :
    s'.current = s.current := by
  obtain ⟨t, ts, hts⟩ := List.exists_cons_of_ne_nil hs
  simp [current, h.tokens, hts]

/-- Both runs are at the end of a statement, or none of them. -/
theorem Extends.atEnd_iff (h : Extends tail s s') :
    (s'.tokens = [] ∨ s'.current.kind = .semicolon) ↔
      (s.tokens = [] ∨ s.current.kind = .semicolon) := by
  by_cases hs : s.tokens = []
  · have htokens := h.tokens
    cases tail with
    | nil => simp [htokens, hs]
    | cons t ts => simp [current, htokens, hs, h.head_kind]
  · rw [h.current_eq hs]
    simp [h.tokens, hs]

theorem final_start (tokens : List Token) : (start tokens).final.kind = .eof := by
  unfold start
  cases hfind : tokens.find? fun t => t.kind = .eof with
  | some t => simpa using List.find?_some hfind
  | none =>
    simp only [Option.getD_none]
    unfold finalAfter
    split <;> rfl

theorem tokens_start_append {before : List Token} (h : ∀ t ∈ before, t.kind ≠ .eof)
    (after : List Token) :
    (start (before ++ after)).tokens = (start before).tokens ++ (start after).tokens := by
  have hall : ∀ t ∈ before.filter (fun t => !t.kind.isTrivia), decide (t.kind ≠ .eof) = true :=
    fun t ht => decide_eq_true (h t (List.mem_filter.mp ht).1)
  simp only [start, List.filter_append, List.takeWhile_append_of_pos hall,
    List.takeWhile_eq_self_iff.mpr hall]

theorem tokens_start_cons {t : Token} (h : t.kind = .semicolon) (after : List Token) :
    (start (t :: after)).tokens = t :: (start after).tokens := by
  simp [start, h, TokenKind.isTrivia]

end ParserState

namespace Script

open ParserState

variable {tail : List Token} {s s' : ParserState}

/-- One round does the same in both runs. -/
theorem step_extends (h : Extends tail s s') (hs : s.tokens ≠ []) :
    (step s').1 = (step s).1 ∧ (step s').2.1.length = (step s).2.1.length ∧
      Extends tail (step s).2.2 (step s').2.2 := by
  unfold step
  rw [h.current_eq hs]
  split
  · have hagree := Parser.statement_agree h
    unfold Parser.Agree at hagree
    rcases hr : Parser.statement.run s with ⟨result, u⟩
    rcases hr' : Parser.statement.run s' with ⟨result', u'⟩
    rw [hr, hr'] at hagree
    cases hagree with
    | error hu hu' _ _ => exact ⟨rfl, rfl, (h.after hu hu').synchronize⟩
    | ok hu hu' _ =>
      have hafter := h.after hu hu'
      by_cases hend : u.tokens = [] ∨ u.current.kind = .semicolon
      · simp only [if_pos hend, if_pos (hafter.atEnd_iff.mpr hend), true_and]
        exact hafter
      · simp only [if_neg hend, if_neg (mt hafter.atEnd_iff.mp hend), true_and]
        exact ⟨rfl, hafter.synchronize⟩
  · exact ⟨rfl, rfl, h.advance hs⟩

theorem tokens_skipGap (separated : Bool) (s : ParserState) :
    (skipGap separated s).tokens = s.tokens.dropWhile fun t => t.kind = .semicolon := by
  unfold skipGap
  split <;> exact tokens_skipWhile _ s

theorem final_skipGap (separated : Bool) (s : ParserState) :
    (skipGap separated s).final = s.final := by
  unfold skipGap
  split <;> exact final_skipWhile _ s

theorem skipWhile_of_current {s : ParserState} (h : s.current.kind ≠ .semicolon) :
    s.skipWhile (· = .semicolon) = s := by
  unfold skipWhile
  cases hs : s.tokens with
  | nil => rfl
  | cons t ts =>
    have ht : t.kind ≠ .semicolon := by simpa [current, hs] using h
    simp [ht]

theorem skipGap_skipGap (separated : Bool) {s : ParserState} (hs : s.final.kind = .eof) :
    skipGap false (skipGap separated s) = skipGap separated s := by
  have htokens := tokens_skipGap separated s
  have hfinal := final_skipGap separated s
  generalize skipGap separated s = ready at htokens hfinal
  have hcurrent : ready.current.kind ≠ .semicolon := by
    unfold current
    cases hready : ready.tokens with
    | nil => simp [hfinal, hs]
    | cons t ts =>
      have hhead := List.head?_dropWhile_not (fun t : Token => t.kind = .semicolon) s.tokens
      rw [← htokens, hready] at hhead
      simpa using hhead
  simp [skipGap, skipWhile_of_current hcurrent, hcurrent]

theorem readFrom_skipGap (separated : Bool) {s : ParserState} (hs : s.final.kind = .eof) :
    readFrom false (skipGap separated s) = readFrom separated s := by
  rw [readFrom, readFrom, skipGap_skipGap separated hs]

theorem readFrom_of_nil {separated : Bool} {s : ParserState}
    (hs : (skipGap separated s).tokens = []) :
    readFrom separated s = ([], [], (skipGap separated s).hints) := by
  rw [readFrom, dif_pos hs]

/-- The state in which the next round begins. -/
def nextRound (s : ParserState) : ParserState :=
  s.orSkip (step s).2.2

theorem readFrom_of_ne_nil {separated : Bool} {s ready : ParserState}
    (hready : skipGap separated s = ready) (hs : ready.tokens ≠ []) :
    readFrom separated s =
      ((step ready).1.toList ++ (readFrom false (nextRound ready)).1,
        (step ready).2.1 ++ (readFrom false (nextRound ready)).2.1,
        (readFrom false (nextRound ready)).2.2) := by
  subst hready
  rw [readFrom, dif_neg hs]
  rfl

/-- Whether a reading gives the statements of two others, and as many complaints. -/
structure Joins (left right whole : List Statement × List Diagnostic × List Hint) : Prop where
  statements : whole.1 = left.1 ++ right.1
  errors : whole.2.1.length = left.2.1.length + right.2.1.length

/-- Reading goes on with the tail when the tokens before it are used up. -/
theorem readFrom_extends (n : Nat) :
    ∀ separated separated' s s', Extends tail s s' → s.tokens.length < n →
      ∃ rest : ParserState, rest.tokens = tail.dropWhile (fun t => t.kind = .semicolon) ∧
        rest.final.kind = .eof ∧
        Joins (readFrom separated s) (readFrom false rest) (readFrom separated' s') := by
  induction n with
  | zero =>
    intro _ _ _ _ _ hn
    omega
  | succ n ih =>
    intro separated separated' s s' h hn
    have htokens := tokens_skipGap separated s
    have htokens' := tokens_skipGap separated' s'
    have hfinal := final_skipGap separated s
    have hfinal' := final_skipGap separated' s'
    rw [h.tokens, List.dropWhile_append, ← htokens] at htokens'
    by_cases hs : (skipGap separated s).tokens = []
    -- The tokens in front are used up: what the whole still has is the tail.
    · rw [hs] at htokens'
      refine ⟨skipGap separated' s', htokens', by rw [hfinal', h.final'], ?_⟩
      rw [readFrom_skipGap separated' h.final', readFrom_of_nil hs]
      exact ⟨rfl, (Nat.zero_add _).symm⟩
    -- One round is the same for both, and leaves fewer tokens in front of the tail.
    · rw [if_neg (by simpa using hs)] at htokens'
      have hlen := length_skipGap_le separated s
      generalize hready : skipGap separated s = ready at *
      generalize hready' : skipGap separated' s' = ready' at *
      have hs' : ready'.tokens ≠ [] := by simp [htokens', hs]
      have hextends : Extends tail ready ready' :=
        ⟨h.ends, htokens', by rw [hfinal, h.final], by rw [hfinal', h.final']⟩
      obtain ⟨hstatement, herrors, hafter⟩ := step_extends hextends hs
      have hnext : Extends tail (nextRound ready) (nextRound ready') := hextends.orSkip hs hafter
      have hlt : (nextRound ready).tokens.length < ready.tokens.length := length_orSkip_lt hs _
      obtain ⟨rest, hrest, hrestFinal, hjoins⟩ := ih false false _ _ hnext (by omega)
      refine ⟨rest, hrest, hrestFinal, ?_⟩
      rw [readFrom_of_ne_nil hready hs, readFrom_of_ne_nil hready' hs']
      constructor
      · simp only [hstatement, hjoins.statements, List.append_assoc]
      · simp only [List.length_append, herrors, hjoins.errors, Nat.add_assoc]

/-- What was read before a state, and where, does not matter. -/
theorem readFrom_congr (separated separated' : Bool) (htokens : s'.tokens = s.tokens)
    (hs : s.final.kind = .eof) (hs' : s'.final.kind = .eof) :
    (readFrom separated' s').1 = (readFrom separated s).1 ∧
      (readFrom separated' s').2.1.length = (readFrom separated s).2.1.length := by
  have h : Extends [] s s' := ⟨by simp, by simp [htokens], hs, hs'⟩
  obtain ⟨rest, hrest, -, hjoins⟩ :=
    readFrom_extends _ separated separated' s s' h (Nat.lt_succ_self _)
  have hnil : (skipGap false rest).tokens = [] := by rw [tokens_skipGap, hrest]; rfl
  rw [readFrom_of_nil hnil] at hjoins
  exact ⟨by simpa using hjoins.statements, by simpa using hjoins.errors⟩

theorem readFrom_append (separated : Bool) {rest : ParserState} (h : Extends tail s s')
    (htokens : rest.tokens = tail) (hrest : rest.final.kind = .eof) :
    Joins (readFrom separated s) (readFrom separated rest) (readFrom separated s') := by
  obtain ⟨left, hleft, hfinal, hjoins⟩ :=
    readFrom_extends _ separated separated s s' h (Nat.lt_succ_self _)
  have hskip : left.tokens = (skipGap separated rest).tokens := by
    rw [hleft, tokens_skipGap, htokens]
  obtain ⟨hstatements, herrors⟩ := readFrom_congr false false hskip
    (by rw [final_skipGap, hrest]) hfinal
  rw [readFrom_skipGap separated hrest] at hstatements herrors
  exact ⟨by rw [hjoins.statements, hstatements], by rw [hjoins.errors, herrors]⟩

/-- A semicolon parts a script in two that are read on their own, however broken
either of them is. Only the places of complaints may depend on the other. -/
theorem ofTokens_append_semicolon {before after : List Token} {semicolon : Token}
    (hkind : semicolon.kind = .semicolon) (hbefore : ∀ t ∈ before, t.kind ≠ .eof) :
    (ofTokens (before ++ semicolon :: after)).statements =
        (ofTokens before).statements ++ (ofTokens after).statements ∧
      (ofTokens (before ++ semicolon :: after)).errors.length =
        (ofTokens before).errors.length + (ofTokens after).errors.length := by
  have hextends : Extends (semicolon :: (start after).tokens) (start before)
      (start (before ++ semicolon :: after)) := by
    refine ⟨by simp [hkind], ?_, final_start _, final_start _⟩
    rw [tokens_start_append hbefore, tokens_start_cons hkind]
  have hjoins := readFrom_append true hextends (tokens_start_cons hkind after) (final_start _)
  have hskip : (skipGap true (start (semicolon :: after))).tokens =
      (skipGap true (start after)).tokens := by
    rw [tokens_skipGap, tokens_skipGap, tokens_start_cons hkind]
    simp [hkind]
  obtain ⟨hstatements, herrors⟩ := readFrom_congr false false hskip
    (by rw [final_skipGap, final_start]) (by rw [final_skipGap, final_start])
  rw [readFrom_skipGap true (final_start _), readFrom_skipGap true (final_start _)]
    at hstatements herrors
  exact ⟨hjoins.statements.trans (by rw [hstatements]; rfl),
    hjoins.errors.trans (by rw [herrors]; rfl)⟩

/-- `SELECT a FROM t; DROP x; UPDATE t SET a 1; DELETE FROM t`, parted at its second semicolon:
on both sides one statement is read and one given up. -/
theorem ofTokens_append_semicolon_broken :
    let tokens := (Lexed.ofText "SELECT a FROM t; DROP x; UPDATE t SET a 1; DELETE FROM t").tokens
    let before := tokens.take 12
    let after := tokens.drop 13
    (ofTokens before).statements.map Statement.span = [⟨0, 15⟩] ∧
      (ofTokens before).errors.length = 1 ∧
      (ofTokens after).statements.map Statement.span = [⟨43, 56⟩] ∧
      (ofTokens after).errors.length = 1 ∧
      (ofTokens tokens).statements = (ofTokens before).statements ++ (ofTokens after).statements ∧
      (ofTokens tokens).errors.length =
        (ofTokens before).errors.length + (ofTokens after).errors.length := by
  intro tokens before after
  let semicolon : Token := ⟨.semicolon, ⟨23, 24⟩, ⟨0, 23⟩, ⟨0, 24⟩, none⟩
  have hsplit : tokens = before ++ semicolon :: after := by decide +kernel
  have hbefore : ∀ t ∈ before, t.kind ≠ .eof := by decide +kernel
  rw [hsplit]
  exact ⟨by decide +kernel, by decide +kernel, by decide +kernel, by decide +kernel,
    ofTokens_append_semicolon rfl hbefore⟩

end Script
end SqlAnalysis

import Mathlib.Data.List.Induction
import SqlAnalysis.Proofs.Token.Edges

/-!
# Parentheses that match

Which parentheses of a text match is said here of the run of its tokens as a whole, without
a stack. A run either has an opening parenthesis for each closing one, and then it is known
which of the opening ones are left over, or it has a first closing one without a partner.
The stack of the lexer is followed through these forms, so that the fault it ends with is
the one the run has.
-/
namespace SqlAnalysis

/-- All parentheses among some tokens have partners. -/
inductive Matched : List Token → Prop
  | nil : Matched []
  | other {t : Token} {ts : List Token} (hkind : t.kind.isParen = false) (hrest : Matched ts) :
      Matched (t :: ts)
  | pair {left right : Token} {inner ts : List Token} (hleft : left.kind = .leftParen)
      (hright : right.kind = .rightParen) (hinner : Matched inner) (hrest : Matched ts) :
      Matched (left :: (inner ++ right :: ts))

/-- The tokens `lefts` are the opening parentheses that are never closed, the last of them
in front, and all others have partners. -/
inductive LeavesOpen : List Token → List Token → Prop
  | matched {ts : List Token} (h : Matched ts) : LeavesOpen [] ts
  | left {lefts before after : List Token} {t : Token} (hbefore : LeavesOpen lefts before)
      (hkind : t.kind = .leftParen) (hafter : Matched after) :
      LeavesOpen (t :: lefts) (before ++ t :: after)

/-- The first closing parenthesis that has no open one before it: those before it all have
partners. -/
def IsStray (ts : List Token) (t : Token) : Prop :=
  ∃ before after, ts = before ++ t :: after ∧ t.kind = .rightParen ∧ Matched before

/-- The last opening parenthesis that is never closed: those behind it all have partners
among themselves. -/
def IsLastOpen (ts : List Token) (t : Token) : Prop :=
  ∃ before after, ts = before ++ t :: after ∧ t.kind = .leftParen ∧ Matched after

variable {ts us lefts : List Token} {t : Token}

namespace Matched

theorem singleton (h : t.kind.isParen = false) : Matched [t] :=
  .other h .nil

theorem append (h : Matched ts) (h' : Matched us) : Matched (ts ++ us) := by
  induction h with
  | nil => exact h'
  | other hkind _ ih => exact .other hkind ih
  | pair hleft hright hinner _ _ ih =>
    rw [List.cons_append, List.append_assoc, List.cons_append]
    exact .pair hleft hright hinner ih

end Matched

theorem LeavesOpen.append (h : LeavesOpen lefts ts) (h' : Matched us) :
    LeavesOpen lefts (ts ++ us) := by
  cases h with
  | matched h => exact .matched (h.append h')
  | left hbefore hkind hafter =>
    rw [List.append_assoc, List.cons_append]
    exact .left hbefore hkind (hafter.append h')

theorem IsStray.append (h : IsStray ts t) (us : List Token) : IsStray (ts ++ us) t := by
  obtain ⟨before, after, rfl, hkind, hbefore⟩ := h
  exact ⟨before, after ++ us, by simp, hkind, hbefore⟩

/-- A closing parenthesis is the partner of the last one left open, or has none. -/
theorem LeavesOpen.close (h : LeavesOpen lefts ts) (hkind : t.kind = .rightParen) :
    (∃ lefts', LeavesOpen lefts' (ts ++ [t])) ∨ IsStray (ts ++ [t]) t := by
  cases h with
  | matched h => exact .inr ⟨ts, [], rfl, hkind, h⟩
  | @left lefts before after left hbefore hleft hafter =>
    have hpair : Matched (left :: (after ++ [t])) := .pair hleft hkind hafter .nil
    refine .inl ⟨lefts, ?_⟩
    rw [List.append_assoc, List.cons_append]
    exact hbefore.append hpair

/-- Every run of tokens leaves some parentheses open or has one that is stray. -/
theorem leavesOpen_or_isStray (ts : List Token) :
    (∃ lefts, LeavesOpen lefts ts) ∨ ∃ t, IsStray ts t := by
  induction ts using List.reverseRecOn with
  | nil => exact .inl ⟨[], .matched .nil⟩
  | append_singleton ts t ih =>
    rcases ih with ⟨lefts, hopen⟩ | ⟨stray, hstray⟩
    · by_cases hleft : t.kind = .leftParen
      · exact .inl ⟨t :: lefts, .left hopen hleft .nil⟩
      · by_cases hright : t.kind = .rightParen
        · exact (hopen.close hright).imp_right fun h => ⟨t, h⟩
        · refine .inl ⟨lefts, hopen.append (.singleton ?_)⟩
          unfold TokenKind.isParen
          split <;> simp_all
    · exact .inr ⟨stray, hstray.append [t]⟩

/-! ### The stack of the lexer -/

namespace BracketFault

variable {opened : List Position} {stray : Option Position}

theorem find_left (h : t.kind = .leftParen) :
    find opened stray (t :: ts) = find (t.start :: opened) stray ts := by
  rw [find.eq_def]
  exact if_pos h

theorem find_right (h : t.kind = .rightParen) (p : Position) :
    find (p :: opened) stray (t :: ts) = find opened stray ts := by
  rw [find, if_neg (by simp [h]), if_pos h]

theorem find_stray (h : t.kind = .rightParen) :
    find [] none (t :: ts) = find [] (some t.start) ts := by
  rw [find, if_neg (by simp [h]), if_pos h]
  rfl

theorem find_other (h : t.kind.isParen = false) :
    find opened stray (t :: ts) = find opened stray ts := by
  have hleft : t.kind ≠ .leftParen := fun hkind => by simp [hkind, TokenKind.isParen] at h
  have hright : t.kind ≠ .rightParen := fun hkind => by simp [hkind, TokenKind.isParen] at h
  rw [find.eq_def]
  simp [hleft, hright]

/-- The first stray parenthesis is never forgotten. -/
theorem find_some (opened : List Position) (p : Position) (ts : List Token) :
    find opened (some p) ts = some (.unmatched p) := by
  induction ts generalizing opened with
  | nil => rfl
  | cons t ts ih =>
    unfold find
    split
    · exact ih _
    · split
      · split
        · exact ih _
        · exact ih _
      · exact ih _

/-- Parentheses with partners leave the stack as it was. -/
theorem find_append_of_matched (h : Matched ts) (opened : List Position)
    (stray : Option Position) (us : List Token) :
    find opened stray (ts ++ us) = find opened stray us := by
  induction h generalizing opened us with
  | nil => rfl
  | other hkind _ ih =>
    rw [List.cons_append, find_other hkind]
    exact ih opened us
  | @pair left right inner ts hleft hright _ _ ihInner ihRest =>
    calc find opened stray ((left :: (inner ++ right :: ts)) ++ us)
        = find (left.start :: opened) stray (inner ++ (right :: (ts ++ us))) := by
          rw [List.cons_append, find_left hleft, List.append_assoc, List.cons_append]
      _ = find (left.start :: opened) stray (right :: (ts ++ us)) := ihInner _ _
      _ = find opened stray (ts ++ us) := find_right hright _
      _ = find opened stray us := ihRest _ _

/-- After a run without a stray parenthesis the stack holds those it leaves open. -/
theorem find_append_of_leavesOpen (h : LeavesOpen lefts ts) (us : List Token) :
    find [] none (ts ++ us) = find (lefts.map Token.start) none us := by
  induction h generalizing us with
  | matched h => exact find_append_of_matched h [] none us
  | @left lefts before after t _ hkind hafter ih =>
    rw [List.append_assoc, ih, List.cons_append, find_left hkind, find_append_of_matched hafter]
    rfl

theorem find_of_leavesOpen (h : LeavesOpen lefts ts) :
    find [] none ts = lefts.head?.map fun t => .unclosed t.start := by
  have hfind := find_append_of_leavesOpen h []
  rw [List.append_nil] at hfind
  rw [hfind]
  cases lefts <;> rfl

theorem find_of_isStray (h : IsStray ts t) : find [] none ts = some (.unmatched t.start) := by
  obtain ⟨before, after, rfl, hkind, hbefore⟩ := h
  rw [find_append_of_matched hbefore, find_stray hkind, find_some]

end BracketFault

/-- What is left open leaves no room for a stray one. -/
theorem LeavesOpen.not_isStray (h : LeavesOpen lefts ts) (t : Token) : ¬ IsStray ts t := by
  intro hstray
  have hfind := BracketFault.find_of_leavesOpen h
  rw [BracketFault.find_of_isStray hstray] at hfind
  cases lefts <;> simp at hfind

/-- Without a stray parenthesis, the last one left open is on top of the stack. -/
theorem IsLastOpen.leavesOpen (h : IsLastOpen ts t) (hstray : ∀ u, ¬ IsStray ts u) :
    ∃ lefts, LeavesOpen (t :: lefts) ts := by
  obtain ⟨before, after, rfl, hkind, hafter⟩ := h
  rcases leavesOpen_or_isStray before with ⟨lefts, hopen⟩ | ⟨u, hu⟩
  · exact ⟨lefts, .left hopen hkind hafter⟩
  · exact absurd (hu.append (t :: after)) (hstray u)

namespace BracketFault

theorem find_eq_none_iff (ts : List Token) : find [] none ts = none ↔ Matched ts := by
  constructor
  · intro hfind
    rcases leavesOpen_or_isStray ts with ⟨lefts, hopen⟩ | ⟨t, hstray⟩
    · rw [find_of_leavesOpen hopen] at hfind
      cases hopen with
      | matched h => exact h
      | left => simp at hfind
    · simp [find_of_isStray hstray] at hfind
  · intro h
    exact find_of_leavesOpen (.matched h)

theorem find_eq_unmatched_iff (ts : List Token) (p : Position) :
    find [] none ts = some (.unmatched p) ↔ ∃ t, IsStray ts t ∧ t.start = p := by
  constructor
  · intro hfind
    rcases leavesOpen_or_isStray ts with ⟨lefts, hopen⟩ | ⟨t, hstray⟩
    · rw [find_of_leavesOpen hopen] at hfind
      cases lefts <;> simp at hfind
    · rw [find_of_isStray hstray] at hfind
      exact ⟨t, hstray, by simpa using hfind⟩
  · rintro ⟨t, hstray, rfl⟩
    exact find_of_isStray hstray

theorem find_eq_unclosed_iff (ts : List Token) (p : Position) :
    find [] none ts = some (.unclosed p) ↔
      (∀ t, ¬ IsStray ts t) ∧ ∃ t, IsLastOpen ts t ∧ t.start = p := by
  constructor
  · intro hfind
    rcases leavesOpen_or_isStray ts with ⟨lefts, hopen⟩ | ⟨t, hstray⟩
    · refine ⟨hopen.not_isStray, ?_⟩
      rw [find_of_leavesOpen hopen] at hfind
      cases hopen with
      | matched => simp at hfind
      | @left lefts before after t hbefore hkind hafter =>
        exact ⟨t, ⟨before, after, rfl, hkind, hafter⟩, by simpa using hfind⟩
    · simp [find_of_isStray hstray] at hfind
  · rintro ⟨hstray, t, hlast, rfl⟩
    obtain ⟨lefts, hopen⟩ := hlast.leavesOpen hstray
    exact find_of_leavesOpen hopen

/-! ### The complaint about it -/

/-- The third letter of a fault's message is one that no other message of the lexer has. -/
theorem message_third (fault : BracketFault) :
    fault.message.toList[2]? = some 'm' ∨ fault.message.toList[2]? = some 'c' := by
  unfold message
  cases fault <;> dsimp only <;> rw [String.toList_append, String.toList_append,
    String.toList_append] <;> simp [toString]

end BracketFault

theorem Scan.Result.problem_ne_message {c : Char} {s : Scan} (h : Scan.Result c s) :
    ∀ message ∈ s.problem, ∀ fault : BracketFault, message ≠ fault.message := by
  have hthird : ∀ message ∈ s.problem,
      message.toList[2]? = some 't' ∨ message.toList[2]? = some 'r' := by
    cases h with
    | token _ hproblem =>
      intro message hmessage
      have hall : ∀ m ∈ Scan.tokenProblems, m.toList[2]? = some 't' := by decide
      exact .inl (hall message (hproblem message hmessage))
    | skipped =>
      rintro message ⟨⟩
      exact .inr (by simp [String.toList_append])
  rintro message hmessage fault rfl
  have hfault := fault.message_third
  rcases hthird _ hmessage with hm | hm <;> rw [hm] at hfault <;> simp at hfault

theorem Scan.Result.diagnostics_ne_message {c : Char} {s : Scan} (h : Scan.Result c s)
    (range : Range) : ∀ d ∈ s.problem.toList.map fun message => Diagnostic.lexical message range,
      ∀ fault : BracketFault, d.message ≠ fault.message := by
  intro d hd
  obtain ⟨message, hmessage, rfl⟩ := List.mem_map.mp hd
  exact h.problem_ne_message message (Option.mem_toList.mp hmessage)

namespace Lexed

/-- No scan complains in the words of a fault. -/
theorem lexFrom_message (offset : Nat) (here : Position) (pending : Option Span)
    (cs : List Char) : ∀ d ∈ (lexFrom offset here pending cs).2,
      ∀ fault : BracketFault, d.message ≠ fault.message := by
  fun_induction lexFrom offset here pending cs with
  | case1 offset here pending => simp
  | case2 offset here pending c cs s taken stop there problems hkind tokens errors hrest ih =>
    rw [hrest] at ih
    exact List.forall_mem_append.mpr
      ⟨(Scan.scan_result c cs).diagnostics_ne_message ⟨here, there⟩, ih⟩
  | case3 offset here pending c cs s taken stop there problems kind hkind comment t tokens errors
      hrest ih =>
    rw [hrest] at ih
    exact List.forall_mem_append.mpr
      ⟨(Scan.scan_result c cs).diagnostics_ne_message ⟨here, there⟩, ih⟩

/-- The lexer finds no fault exactly if all parentheses match. Else it names the first stray
one, and if there is none, the last one left open. The fault is reported at this parenthesis,
behind all other errors, and by none of them. -/
theorem bracketFault_exact (source : String) :
    ((ofText source).bracketFault = none ↔ Matched (ofText source).tokens) ∧
    (∀ p, (ofText source).bracketFault = some (.unmatched p) ↔
      ∃ t, IsStray (ofText source).tokens t ∧ t.start = p) ∧
    (∀ p, (ofText source).bracketFault = some (.unclosed p) ↔
      (∀ t, ¬ IsStray (ofText source).tokens t) ∧
        ∃ t, IsLastOpen (ofText source).tokens t ∧ t.start = p) ∧
    ∃ others : List Diagnostic,
      (ofText source).errors =
        others ++ (ofText source).bracketFault.toList.map BracketFault.diagnostic ∧
      (∀ d ∈ others, ∀ fault : BracketFault, d.message ≠ fault.message) ∧
      ∀ fault ∈ (ofText source).bracketFault, ∃ t ∈ (ofText source).tokens,
        t.kind.isParen = true ∧ fault.diagnostic.range = t.range := by
  refine ⟨BracketFault.find_eq_none_iff _, BracketFault.find_eq_unmatched_iff _,
    BracketFault.find_eq_unclosed_iff _, (lexFrom 0 ⟨0, 0⟩ none source.toList).2, rfl,
    lexFrom_message _ _ _ _, ?_⟩
  intro fault hfault
  obtain ⟨t, ht, hparen, hplace⟩ :=
    BracketFault.find_place (P := fun p => ∃ t ∈ (ofText source).tokens,
      t.kind.isParen = true ∧ t.start = p) [] none _ nofun nofun
      (fun t ht hparen => ⟨t, ht, hparen, rfl⟩) fault hfault
  refine ⟨t, ht, hparen, ?_⟩
  have hstop := stop_of_isParen _ _ _ _ t ht hparen
  rw [hplace] at hstop
  exact congrArg₂ Range.mk hplace.symm hstop.symm

end Lexed
end SqlAnalysis

import SqlAnalysis.Proofs.Token.Scans
import SqlAnalysis.Proofs.Token.Tiling

/-!
# Quoted texts

Quoting doubles the quotes of a text and leaves its backslashes as they are, while a scan
also reads escapes. So a text comes back from between its quotes exactly if none of its
backslashes begins an escape.
-/
namespace SqlAnalysis

namespace Scan

/-- What stands after the opening quote of a quoted text. -/
def afterQuote (cs : List Char) : List Char :=
  Text.double '\x27' cs ++ ['\x27']

theorem afterQuote_quote (cs : List Char) :
    afterQuote ('\x27' :: cs) = '\x27' :: '\x27' :: afterQuote cs := by
  simp [afterQuote, Text.double]

theorem afterQuote_cons {c : Char} (h : c ≠ '\x27') (cs : List Char) :
    afterQuote (c :: cs) = c :: afterQuote cs := by
  simp [afterQuote, Text.double, h]

theorem stringRest_afterQuote_backslash {cs : List Char} (h : unescape? (cs.headD '\x27') = none) :
    stringRest (afterQuote ('\x5c' :: cs)) = (stringRest (afterQuote cs)).cons '\x5c' 1 := by
  rw [afterQuote_cons (by decide)]
  exact stringRest_backslash h

/-- What is left of a quoted text behind an escape that takes its first character. Of two
doubled quotes only one is taken. -/
def afterEscape : List Char → List Char
  | [] => []
  | e :: cs => if e = '\x27' then '\x27' :: afterQuote cs else afterQuote cs

theorem stringRest_afterQuote_escape {cs : List Char} {d : Char}
    (h : unescape? (cs.headD '\x27') = some d) :
    stringRest (afterQuote ('\x5c' :: cs)) = (stringRest (afterEscape cs)).cons d 2 := by
  rw [afterQuote_cons (by decide)]
  cases cs with
  | nil =>
    obtain rfl : '\x27' = d := Option.some.inj h
    rfl
  | cons e cs =>
    rw [List.headD_cons] at h
    rw [afterEscape]
    split
    · next he =>
      subst he
      simp [afterQuote_quote, stringRest, h]
    · next he => simp [afterQuote_cons he, stringRest, h]

/-- Every character of a quoted text gives at most one of the content. That needs to be
known also from the second of two doubled quotes on. -/
theorem length_stringRest_le : ∀ cs : List Char,
    (stringRest (afterQuote cs)).content.length ≤ cs.length ∧
      (stringRest ('\x27' :: afterQuote cs)).content.length ≤ cs.length + 1
  | [] => by decide
  | c :: cs => by
    obtain ⟨hwhole, hsecond⟩ := length_stringRest_le cs
    by_cases hquote : c = '\x27'
    · subst hquote
      rw [afterQuote_quote]
      simpa [stringRest, Quoted.cons] using And.intro hwhole hsecond
    have hclosed : (stringRest ('\x27' :: afterQuote (c :: cs))).content = [] := by
      rw [afterQuote_cons hquote]
      simp [stringRest, hquote]
    refine ⟨?_, by simp [hclosed]⟩
    by_cases hslash : c = '\x5c'
    · subst hslash
      cases hescape : unescape? (cs.headD '\x27') with
      | none => simpa [stringRest_afterQuote_backslash hescape, Quoted.cons] using hwhole
      | some d =>
        rw [stringRest_afterQuote_escape hescape]
        cases cs with
        | nil => exact Nat.le_refl 1
        | cons e cs =>
          have hrest := length_stringRest_le cs
          rw [afterEscape]
          split <;> simp only [Quoted.cons, List.length_cons] <;> omega
    · rw [afterQuote_cons hquote, stringRest_cons hquote hslash]
      simpa [Quoted.cons] using hwhole

theorem eq_of_unescape?_backslash {e : Char} (h : unescape? e = some '\x5c') : e = '\x5c' := by
  unfold unescape? at h
  split at h <;> simp_all

/-- An escape is read as another character than its backslash, or takes two backslashes
for one, and then the content is too short. -/
theorem stringRest_content_ne {cs : List Char} (h : hasEscape cs = true) :
    (stringRest (afterQuote cs)).content ≠ cs := by
  induction cs with
  | nil => cases h
  | cons c cs ih =>
    rw [hasEscape, Bool.or_eq_true] at h
    by_cases hquote : c = '\x27'
    · subst hquote
      have htail : hasEscape cs = true := by simpa using h
      rw [afterQuote_quote]
      simpa [stringRest, Quoted.cons] using ih htail
    by_cases hslash : c = '\x5c'
    · subst hslash
      cases hescape : unescape? (cs.headD '\x27') with
      | none =>
        rw [hescape] at h
        have htail : hasEscape cs = true := by simpa using h
        simpa [stringRest_afterQuote_backslash hescape, Quoted.cons] using ih htail
      | some d =>
        rw [stringRest_afterQuote_escape hescape]
        intro hcontent
        obtain ⟨rfl, hrest⟩ := List.cons.inj hcontent
        have hhead := eq_of_unescape?_backslash hescape
        cases cs with
        | nil => cases hhead
        | cons e cs =>
          rw [List.headD_cons] at hhead
          subst hhead
          have hlength := congrArg List.length hrest
          have hle := (length_stringRest_le cs).1
          rw [afterEscape, if_neg (by decide), List.length_cons] at hlength
          omega
    · have htail : hasEscape cs = true := by simpa [hslash] using h
      rw [afterQuote_cons hquote, stringRest_cons hquote hslash]
      simpa [Quoted.cons] using ih htail

theorem stringRest_content_eq_iff (cs : List Char) :
    (stringRest (afterQuote cs)).content = cs ↔ hasEscape cs = false := by
  constructor
  · intro h
    rw [← Bool.not_eq_true]
    exact fun hescape => stringRest_content_ne hescape h
  · intro h
    rw [afterQuote, stringRest_double h (Follows.nil _)]

/-! ### The token of a quoted text -/

/-- Whether a token is a quoted text with a given content. -/
theorem textKind_iff {cs : List Char} {s : String} :
    (textKind cs = .string s ∨ ∃ c, textKind cs = .character c ∧ s = c.toString) ↔
      cs = s.toList := by
  constructor
  · unfold textKind
    rintro (h | ⟨c, h, rfl⟩)
    · split at h
      · cases h
      · obtain rfl := TokenKind.string.inj h
        exact String.toList_ofList.symm
    · split at h
      · obtain rfl := TokenKind.character.inj h
        simp
      · cases h
  · rintro rfl
    unfold textKind
    split
    · next c hc => exact .inr ⟨c, rfl, by rw [← String.ofList_toList (s := s), hc]; rfl⟩
    · exact .inl (by rw [String.ofList_toList])

end Scan

namespace Lexed

open Scan

theorem toList_quote (s : String) : (Literal.quote s).toList = '\x27' :: afterQuote s.toList := by
  simp [Literal.quote, afterQuote]

/-- The first token of a text that begins with a quote is what stands in the quotes. -/
theorem lexFrom_quote (cs : List Char) : ∃ t ts ds,
    lexFrom 0 ⟨0, 0⟩ none ('\x27' :: cs) = (t :: ts, ds) ∧
      t.kind = textKind (stringRest cs).content := by
  rw [lexFrom]
  exact ⟨_, _, _, rfl, rfl⟩

/-- A quoted text lexes without an error to one token with that text and to nothing else
exactly if no backslash of it begins an escape. -/
theorem ofText_quote_iff (s : String) :
    ((ofText (Literal.quote s)).errors = [] ∧
        ∃ token, (ofText (Literal.quote s)).tokens.filter (fun t => t.kind ≠ .eof) = [token] ∧
          (token.kind = .string s ∨ ∃ c, token.kind = .character c ∧ s = c.toString)) ↔
      hasEscape s.toList = false := by
  constructor
  · rintro ⟨-, token, htokens, hkind⟩
    obtain ⟨first, rest, ds, hlex, hfirst⟩ := lexFrom_quote (afterQuote s.toList)
    rw [ofText, toList_quote, hlex] at htokens
    have hne : first.kind ≠ .eof := hfirst ▸ textKind_ne_eof _
    simp only [ne_eq, hne, not_false_eq_true, decide_true, List.filter_cons_of_pos,
      List.cons.injEq] at htokens
    rw [← htokens.1, hfirst, textKind_iff] at hkind
    exact (stringRest_content_eq_iff _).mp hkind
  · intro h
    have hscan : scan '\x27' (afterQuote s.toList) =
        token (textKind s.toList) (afterQuote s.toList).length := by
      rw [afterQuote, scan_string h (.nil _)]
      simp
    obtain ⟨first, last, hlex, hfirst, hlast⟩ : ∃ first last,
        lexFrom 0 ⟨0, 0⟩ none ('\x27' :: afterQuote s.toList) = ([first, last], []) ∧
          first.kind = textKind s.toList ∧ last.kind = .eof := by
      rw [lexFrom]
      simp only [hscan, Scan.token, List.drop_length, lexFrom]
      exact ⟨_, _, rfl, rfl, rfl⟩
    have hne : first.kind ≠ .eof := hfirst ▸ textKind_ne_eof _
    have hfault : BracketFault.find [] none [first, last] = none := by
      unfold textKind at hfirst
      split at hfirst <;> simp [BracketFault.find, hfirst, hlast]
    rw [ofText, toList_quote, hlex]
    refine ⟨by simp [hfault], first, by simp [hne, hlast], ?_⟩
    rw [hfirst, textKind_iff]

end Lexed
end SqlAnalysis

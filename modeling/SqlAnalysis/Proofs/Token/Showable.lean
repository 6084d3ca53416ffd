import SqlAnalysis.Proofs.Binary64.RoundTrip
import SqlAnalysis.Token.Lexer

/-!
# Tokens that can be shown again

The tokens of a text have the form that a canonical text shows, but for two kinds of
literals: a backslash in a string begins an escape when it is shown, and a number beyond
all finite ones is shown as a name.
-/
namespace SqlAnalysis

/-- Whether a literal is none of those whose text is read as something else. A value
has a backslash only if the text it was read from has one. -/
def TokenKind.isShowable : TokenKind → Bool
  | .float x => x ≠ .infinite false
  | .string s => '\x5c' ∉ s.toList
  | .character c => c ≠ '\x5c'
  | _ => true

namespace Scan

theorem textKind_plain {cs : List Char} (h : (textKind cs).isShowable = true) : (textKind cs).Plain := by
  unfold textKind at h ⊢
  split at h
  · next c => exact of_decide_eq_true (p := c ≠ '\x5c') h
  · next hlength =>
    refine ⟨fun hone => ?_, of_decide_eq_true h⟩
    rw [String.toList_ofList] at hone
    obtain ⟨c, hc⟩ := List.length_eq_one_iff.mp hone
    exact hlength c hc

theorem numberKind_plain {text : List Char} (h : (numberKind text).isShowable = true) :
    (numberKind text).Plain := by
  unfold numberKind at h ⊢
  split at h
  · next n hn =>
    simp only [Option.filter_eq_some_iff, decide_eq_true_eq] at hn
    exact hn.2
  · cases hread : Binary64.unsigned? false text with
    | none =>
      rw [hread] at h
      cases h
    | some x =>
      rw [hread] at h
      exact Binary64.readsBack_of_unsigned? hread (of_decide_eq_true h)

theorem wordKind_plain {word : List Char} (h : IsWord word) : (wordKind word).Plain := by
  cases hkind : wordKind word with
  | name text =>
    have hword : text = String.ofList word := by
      unfold wordKind at hkind
      dsimp only at hkind
      split at hkind <;> cases hkind
      rfl
    rw [TokenKind.Plain, hword, String.toList_ofList, hkind, hword]
    exact ⟨h, rfl⟩
  | keyword _ => trivial
  | _ =>
    unfold wordKind at hkind
    dsimp only at hkind
    split at hkind <;> cases hkind

theorem symbol_plain {c : Char} {cs : List Char} : ∀ kind ∈ (symbol c cs).kind, kind.Plain := by
  unfold symbol
  cases h : symbol? c cs.head? with
  | none => nofun
  | some found =>
    rintro _ ⟨⟩
    unfold symbol? at h
    split at h <;> cases h <;> trivial

/-- Every token has the form that a text shows, if it can be shown at all. -/
theorem scan_plain (c : Char) (cs : List Char) :
    ∀ kind ∈ (scan c cs).kind, kind.isShowable = true → kind.Plain := by
  unfold scan
  dsimp only
  split_ifs with _ _ _ _ _ _ _ _ _ hstart
  · rintro _ ⟨⟩ _; trivial
  · rintro _ ⟨⟩ _; trivial
  · rintro _ ⟨⟩ _; trivial
  · rintro _ ⟨⟩ _; trivial
  · rintro _ ⟨⟩ _; trivial
  · rintro _ ⟨⟩; exact textKind_plain
  · rintro _ ⟨⟩ _; trivial
  · rintro _ ⟨⟩ _; trivial
  · rintro _ ⟨⟩; exact numberKind_plain
  · rintro _ ⟨⟩ _
    exact wordKind_plain ⟨c, _, rfl, hstart, List.all_takeWhile⟩
  · exact fun kind hkind _ => symbol_plain kind hkind

end Scan

namespace Lexed

theorem lexFrom_plain (offset : Nat) (here : Position) (pending : Option Span) (cs : List Char) :
    ∀ t ∈ (lexFrom offset here pending cs).1, t.kind.isShowable = true → t.kind.Plain := by
  fun_induction lexFrom offset here pending cs with
  | case1 offset here pending => simp [TokenKind.Plain]
  | case2 offset here pending c cs s taken stop there problems hkind tokens errors hrest ih =>
    rwa [hrest] at ih
  | case3 offset here pending c cs s taken stop there problems kind hkind comment t tokens errors
      hrest ih =>
    rw [hrest] at ih
    exact List.forall_mem_cons.mpr ⟨Scan.scan_plain c cs kind hkind, ih⟩

theorem plain_of_mem_ofText {source : String} {t : Token} (ht : t ∈ (ofText source).tokens)
    (h : t.kind.isShowable = true) : t.kind.Plain :=
  lexFrom_plain 0 ⟨0, 0⟩ none source.toList t ht h

/-- The tokens of a text whose literals can be shown again are plain. -/
theorem ofText_plain {source : String} (h : ∀ t ∈ (ofText source).tokens, t.kind.isShowable = true) :
    ∀ t ∈ (ofText source).tokens, t.kind.Plain :=
  fun t ht => plain_of_mem_ofText ht (h t ht)

end Lexed
end SqlAnalysis

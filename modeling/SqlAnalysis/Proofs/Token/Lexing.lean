import SqlAnalysis.Proofs.Token.Scans
import SqlAnalysis.Proofs.Token.Tiling

/-!
# Texts that lex to given tokens

A text lexes to a list of tokens if its scans find just these, blanks and comments
aside, and complain of nothing. That is stated of a text by what it does in front of
others, so that texts can be put together: what may follow a text is part of what is
said about it.
-/
namespace SqlAnalysis

/-- Whether the scans of a text find the given tokens, besides blanks and comments,
and nothing is wrong with any of them. -/
inductive Lexes : List Char → List TokenKind → Prop
  | nil : Lexes [] []
  | trivia {c cs kind n ks} : Scan.scan c cs = Scan.token kind n → kind.isTrivia = true →
      Lexes (cs.drop n) ks → Lexes (c :: cs) ks
  | token {c cs kind n ks} : Scan.scan c cs = Scan.token kind n → kind.isTrivia = false →
      Lexes (cs.drop n) ks → Lexes (c :: cs) (kind :: ks)

namespace Lexes

variable {c : Char} {cs rest : List Char} {kind : TokenKind} {ks : List TokenKind}

/-- A token with the characters that belong to it. -/
theorem cons {more : List Char} (hscan : Scan.scan c (more ++ rest) = Scan.token kind more.length)
    (hkind : kind.isTrivia = false) (h : Lexes rest ks) :
    Lexes (c :: (more ++ rest)) (kind :: ks) :=
  .token hscan hkind (by rwa [List.drop_left])

theorem kind_ne_eof (h : Lexes cs ks) : ∀ k ∈ ks, k ≠ .eof := by
  induction h with
  | nil => simp
  | trivia _ _ _ ih => exact ih
  | @token c cs kind n ks hscan _ _ ih =>
    refine List.forall_mem_cons.mpr ⟨?_, ih⟩
    rintro rfl
    exact (Scan.scan_result c cs).kind_ne_eof (by rw [hscan]; rfl)

theorem scan_of_blank {d : Char} {ds : List Char}
    (h : d = ' ' ∨ d = '\t' ∨ d = '\x0c' ∨ (d = '\r' ∧ ds.head? ≠ some '\n')) :
    Scan.scan d ds = Scan.token .whitespace (Scan.blanks ds) := by
  rcases h with rfl | rfl | rfl | ⟨rfl, hnext⟩
  · rfl
  · rfl
  · rfl
  · simp [Scan.scan, hnext]

/-- Blanks in front are passed over, together with those that follow. -/
theorem blank (h : Lexes cs ks) : Lexes (' ' :: cs) ks := by
  refine .trivia (scan_of_blank (.inl rfl)) rfl ?_
  cases cs with
  | nil => exact h
  | cons d ds =>
    rw [Scan.blanks]
    split
    · next hblank =>
      have hscan := scan_of_blank hblank
      cases h with
      | trivia hscan' _ hrest =>
        obtain ⟨-, rfl⟩ : _ ∧ Scan.blanks ds = _ := by simpa [Scan.token, hscan] using hscan'
        exact hrest
      | token hscan' hkind _ =>
        obtain ⟨rfl, -⟩ : TokenKind.whitespace = _ ∧ _ := by simpa [Scan.token, hscan] using hscan'
        exact absurd hkind (by decide)
    · exact h

theorem newline (h : Lexes cs ks) : Lexes ('\n' :: cs) ks :=
  .trivia (n := 0) rfl rfl h

theorem lexFrom (h : Lexes cs ks) (offset : Nat) (here : Position) (pending : Option Span) :
    (Lexed.lexFrom offset here pending cs).2 = [] ∧
      ((Lexed.lexFrom offset here pending cs).1.map Token.kind).filter (fun k => !k.isTrivia) =
        ks ++ [.eof] := by
  induction h generalizing offset here pending with
  | nil => simp [Lexed.lexFrom, TokenKind.isTrivia]
  | trivia hscan hkind _ ih =>
    rw [Lexed.lexFrom]
    simp [hscan, Scan.token, hkind, ih]
  | token hscan hkind _ ih =>
    rw [Lexed.lexFrom]
    simp [hscan, Scan.token, hkind, ih]

end Lexes

/-! ### Brackets -/

/-- The number of brackets that are open after some tokens, if every closing one
has a partner. -/
def openAfter (n : Nat) : List TokenKind → Option Nat
  | [] => some n
  | k :: ks =>
    if k = .leftParen then openAfter (n + 1) ks
    else if k = .rightParen then
      match n with
      | n + 1 => openAfter n ks
      | 0 => none
    else openAfter n ks

/-- Whether all brackets among some tokens have partners. -/
def Balanced (ks : List TokenKind) : Prop :=
  ∀ n rest, openAfter n (ks ++ rest) = openAfter n rest

theorem openAfter_filter (n : Nat) (ks : List TokenKind) :
    openAfter n (ks.filter fun k => !k.isTrivia) = openAfter n ks := by
  induction ks generalizing n with
  | nil => rfl
  | cons k ks ih =>
    cases hk : k.isTrivia with
    | true =>
      have hleft : k ≠ .leftParen := by
        rintro rfl
        simp [TokenKind.isTrivia] at hk
      have hright : k ≠ .rightParen := by
        rintro rfl
        simp [TokenKind.isTrivia] at hk
      simp [hk, ih, openAfter, hleft, hright]
    | false => cases n <;> simp [hk, ih, openAfter]

/-- Brackets that all have partners are no fault. -/
theorem BracketFault.find_eq_none (tokens : List Token) (opened : List Position)
    (h : openAfter opened.length (tokens.map Token.kind) = some 0) :
    find opened none tokens = none := by
  induction tokens generalizing opened with
  | nil =>
    have hnil : opened = [] := by simpa [openAfter] using h
    simp [find, hnil]
  | cons t ts ih =>
    rw [List.map_cons, openAfter.eq_def] at h
    rw [find.eq_def]
    dsimp only at h ⊢
    split at h
    · next hleft => simpa [hleft] using ih (t.start :: opened) h
    · next hleft =>
      rw [if_neg hleft]
      split at h
      · next hright =>
        rw [if_pos hright]
        cases opened with
        | nil => simp at h
        | cons p opened => exact ih opened h
      · next hright => simpa [hright] using ih opened h

namespace Balanced

variable {ks ks' : List TokenKind}

theorem nil : Balanced [] := fun _ _ => rfl

theorem append (h : Balanced ks) (h' : Balanced ks') : Balanced (ks ++ ks') := by
  intro n rest
  rw [List.append_assoc, h, h']

theorem singleton {k : TokenKind} (h : k ≠ .leftParen) (h' : k ≠ .rightParen) : Balanced [k] := by
  intro n rest
  simp [openAfter, h, h']

theorem enclosed (h : Balanced ks) : Balanced (.leftParen :: (ks ++ [.rightParen])) := by
  intro n rest
  simp [openAfter, h (n + 1)]

end Balanced

/-- A text whose scans find given tokens with all brackets closed is lexed without
a complaint. -/
theorem Lexes.ofText {text : String} {ks : List TokenKind} (h : Lexes text.toList ks)
    (hbalanced : Balanced ks) :
    (Lexed.ofText text).errors = [] ∧
      ((Lexed.ofText text).tokens.map Token.kind).filter (fun k => !k.isTrivia) = ks ++ [.eof] := by
  obtain ⟨herrors, hkinds⟩ := h.lexFrom 0 ⟨0, 0⟩ none
  refine ⟨?_, hkinds⟩
  have hopen : openAfter 0 (ks ++ [.eof]) = some 0 := by
    rw [hbalanced]
    rfl
  rw [← hkinds, openAfter_filter] at hopen
  have hfault := BracketFault.find_eq_none _ [] hopen
  simp [Lexed.ofText, herrors, hfault]

/-! ### Texts in front of others -/

/-- Whether a text lexes to given tokens in front of every other text that begins
with one of the characters `ends`. -/
structure Written (ends : Char → Bool) (text : String) (words : List TokenKind) : Prop where
  lexes : ∀ rest ks, Follows ends rest → Lexes rest ks → Lexes (text.toList ++ rest) (words ++ ks)
  balanced : Balanced words

/-- Anything may follow. -/
def endsAny (_ : Char) : Bool := true

namespace Written

variable {ends ends' : Char → Bool} {text text' : String} {words words' : List TokenKind}

theorem mono (h : Written ends text words) (himp : ∀ c, ends' c = true → ends c = true) :
    Written ends' text words :=
  ⟨fun rest ks hrest => h.lexes rest ks (hrest.mono himp), h.balanced⟩

/-- Texts one after the other. What follows the first is the second, or what follows
that if the second is empty. -/
theorem append (h : Written ends text words) (h' : Written ends' text' words')
    (hopen : ∀ rest, Follows ends' rest → Follows ends (text'.toList ++ rest)) :
    Written ends' (text ++ text') (words ++ words') := by
  refine ⟨fun rest ks hrest hlex => ?_, h.balanced.append h'.balanced⟩
  rw [String.toList_append, List.append_assoc, List.append_assoc]
  exact h.lexes _ _ (hopen rest hrest) (h'.lexes rest ks hrest hlex)

theorem empty (ends : Char → Bool) : Written ends "" [] :=
  ⟨fun _ _ _ hlex => hlex, .nil⟩

theorem blank : Written endsAny " " [] :=
  ⟨fun _ _ _ hlex => hlex.blank, .nil⟩

end Written
end SqlAnalysis

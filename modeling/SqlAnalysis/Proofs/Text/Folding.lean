import Mathlib.Data.List.Forall2
import SqlAnalysis.Proofs.Token.Scans
import SqlAnalysis.Source.LineIndex
import SqlAnalysis.SqlType.Basic

/-!
# Texts up to case

Two characters that differ in case only are both letters. So two spellings of a text
have the same length, also in bytes, are cut alike by everything that is no letter,
and are one name.
-/
namespace SqlAnalysis

namespace Text

/-- The characters are one, or one letter in both cases. -/
def SameLetter (c d : Char) : Prop :=
  c.toLower = d.toLower

/-- The characters are those of one text in two spellings. -/
abbrev SameLetters : List Char → List Char → Prop :=
  List.Forall₂ SameLetter

theorem sameLetters_iff {cs ds : List Char} :
    SameLetters cs ds ↔ cs.map Char.toLower = ds.map Char.toLower := by
  rw [← List.forall₂_eq_eq_eq, List.forall₂_map_left_iff, List.forall₂_map_right_iff]
  rfl

theorem foldCase_eq_iff {a b : String} :
    foldCase a = foldCase b ↔ SameLetters a.toList b.toList := by
  rw [sameLetters_iff, ← toList_foldCase, ← toList_foldCase, String.toList_inj]

theorem toLower_cases (c : Char) :
    c.toLower = c ∨ 65 ≤ c.toNat ∧ c.toNat ≤ 90 ∧ c.toLower.toNat = c.toNat + 32 := by
  unfold Char.toLower
  split
  · next h =>
    obtain ⟨hlow, hhigh⟩ := h
    have hsum : (c.val + ('a'.val - 'A'.val)).toNat = c.val.toNat + 32 := by
      rw [UInt32.toNat_add, show ('a'.val - 'A'.val).toNat = 32 from rfl]
      have hbound : c.val.toNat ≤ 90 := UInt32.le_iff_toNat_le.mp hhigh
      omega
    exact .inr ⟨UInt32.le_iff_toNat_le.mp hlow, UInt32.le_iff_toNat_le.mp hhigh, hsum⟩
  · exact .inl rfl

namespace SameLetter

variable {c d x : Char}

/-- Only letters have two spellings. -/
theorem eq_or_letters (h : SameLetter c d) :
    c = d ∨ isLetter c = true ∧ isLetter d = true := by
  unfold SameLetter at h
  rw [isLetter_iff, isLetter_iff]
  rcases toLower_cases c with hc | ⟨hlow, hhigh, hc⟩
  · rcases toLower_cases d with hd | ⟨hlow, hhigh, hd⟩
    · exact .inl (by rw [← hc, h, hd])
    · rw [← h, hc] at hd
      omega
  · rcases toLower_cases d with hd | ⟨hlow', hhigh', hd⟩
    · rw [h, hd] at hc
      omega
    · omega

theorem isLetter_eq (h : SameLetter c d) : isLetter c = isLetter d := by
  rcases h.eq_or_letters with rfl | ⟨hc, hd⟩
  · rfl
  · rw [hc, hd]

/-- The two are told apart from the same characters, unless these are letters. -/
theorem eq_iff (h : SameLetter c d) (hx : isLetter x = false) : c = x ↔ d = x := by
  rcases h.eq_or_letters with rfl | ⟨hc, hd⟩
  · rfl
  · constructor
    · rintro rfl
      cases hx.symm.trans hc
    · rintro rfl
      cases hx.symm.trans hd

theorem isDigit_eq (h : SameLetter c d) : isDigit c = isDigit d := by
  rcases h.eq_or_letters with rfl | ⟨hc, hd⟩
  · rfl
  · rw [Bool.eq_iff_iff, isDigit_iff, isDigit_iff]
    rw [isLetter_iff] at hc hd
    omega

theorem utf8Size_eq (h : SameLetter c d) : c.utf8Size = d.utf8Size := by
  rcases h.eq_or_letters with rfl | ⟨hc, hd⟩
  · rfl
  · have hone : ∀ x : Char, isLetter x = true → x.utf8Size = 1 := by
      intro x hx
      rw [isLetter_iff] at hx
      rw [Char.utf8Size_eq_one_iff, UInt32.le_iff_toNat_le]
      show x.toNat ≤ 127
      omega
    rw [hone c hc, hone d hd]

theorem isBlank_eq (h : SameLetter c d) : isBlank c = isBlank d := by
  rcases h.eq_or_letters with rfl | ⟨hc, hd⟩
  · rfl
  · have hno : ∀ x : Char, isLetter x = true → isBlank x = false := by
      intro x hx
      rw [isLetter_iff] at hx
      simp only [isBlank, blankRanges, List.any_cons, List.any_nil, Bool.or_false,
        Bool.or_eq_false_iff, Bool.and_eq_false_iff, decide_eq_false_iff_not]
      omega
    rw [hno c hc, hno d hd]

end SameLetter

namespace SameLetters

variable {cs ds : List Char}

theorem byteLength_eq (h : SameLetters cs ds) : byteLength cs = byteLength ds := by
  induction h with
  | nil => rfl
  | cons hc _ ih => rw [byteLength_cons, byteLength_cons, hc.utf8Size_eq, ih]

theorem head?_eq_some_iff (h : SameLetters cs ds) {x : Char} (hx : isLetter x = false) :
    cs.head? = some x ↔ ds.head? = some x := by
  cases h with
  | nil => rfl
  | cons hc _ => simpa using hc.eq_iff hx

/-- What is no letter stands in both spellings. -/
theorem exists_of_cons {x : Char} (hx : isLetter x = false) (h : SameLetters (x :: cs) ds) :
    ∃ ds', ds = x :: ds' ∧ SameLetters cs ds' := by
  obtain ⟨d, ds', hd, hrest, rfl⟩ := List.forall₂_cons_left_iff.mp h
  rw [(SameLetter.eq_iff hd hx).mp rfl]
  exact ⟨ds', rfl, hrest⟩

/-- What is taken as long as a property that does not depend on case holds. -/
theorem takeWhile {p : Char → Bool} (hp : ∀ c d, SameLetter c d → p c = p d)
    (h : SameLetters cs ds) : SameLetters (cs.takeWhile p) (ds.takeWhile p) := by
  induction h with
  | nil => exact .nil
  | @cons c d _ _ hc _ ih =>
    rw [List.takeWhile_cons, List.takeWhile_cons, hp c d hc]
    split
    · exact .cons hc ih
    · exact .nil

theorem wordsOf (h : SameLetters cs ds) : List.Forall₂ SameLetters (wordsOf cs) (wordsOf ds) := by
  induction h with
  | nil => exact .nil
  | @cons c d cs ds hc hrest ih =>
    cases hrest with
    | nil =>
      simp only [Text.wordsOf, hc.isBlank_eq]
      split
      · exact .nil
      · exact .cons (.cons hc .nil) .nil
    | @cons c' d' cs ds hc' _ =>
      rw [Text.wordsOf.eq_def (c :: c' :: cs), Text.wordsOf.eq_def (d :: d' :: ds)]
      dsimp only
      rw [hc.isBlank_eq, hc'.isBlank_eq]
      split
      · exact ih
      · split
        · exact .cons (.cons hc .nil) ih
        · revert ih
          generalize Text.wordsOf (c' :: cs) = ws
          generalize Text.wordsOf (d' :: ds) = ws'
          intro ih
          cases ih with
          | nil => exact .cons (.cons hc .nil) .nil
          | cons hw hws => exact .cons (.cons hc hw) hws

end SameLetters

/-! ### Texts put together -/

theorem foldCase_ofList (cs : List Char) :
    foldCase (String.ofList cs) = String.ofList (cs.map Char.toLower) := by
  simp [foldCase]

theorem foldCase_append (a b : String) : foldCase (a ++ b) = foldCase a ++ foldCase b := by
  rw [← String.toList_inj]
  simp

theorem foldCase_joinWith (sep : String) (parts : List String) :
    foldCase (joinWith sep parts) = joinWith (foldCase sep) (parts.map foldCase) := by
  induction parts with
  | nil => rfl
  | cons part parts ih =>
    cases parts with
    | nil => simp [joinWith]
    | cons next parts =>
      simp only [joinWith, List.map_cons] at ih ⊢
      rw [String.intercalate_cons_cons, foldCase_append, foldCase_append, ih,
        String.intercalate_cons_cons]

/-- Two spellings of a text have the same words, up to case. -/
theorem map_foldCase_words {a b : String} (h : foldCase a = foldCase b) :
    (words a).map foldCase = (words b).map foldCase := by
  unfold words
  have hwords := (foldCase_eq_iff.mp h).wordsOf
  generalize wordsOf a.toList = ws at hwords
  generalize wordsOf b.toList = ws' at hwords
  induction hwords with
  | nil => rfl
  | cons hw _ ih =>
    simp only [List.map_cons, ih, foldCase_ofList, sameLetters_iff.mp hw]

end Text

theorem TypeKind.ofName?_eq {a b : String} (h : Text.foldCase a = Text.foldCase b) :
    TypeKind.ofName? a = TypeKind.ofName? b := by
  unfold TypeKind.ofName? TypeKind.canonicalName
  rw [Text.map_foldCase_words h]

/-- A type has the same meaning in every spelling of its name. -/
theorem SqlType.ofParts_eq {a b : String} (h : Text.foldCase a = Text.foldCase b)
    (params : List Nat) :
    (SqlType.ofParts a params).toOption = (SqlType.ofParts b params).toOption := by
  unfold SqlType.ofParts
  rw [TypeKind.ofName?_eq h]
  cases TypeKind.ofName? b <;> rfl

theorem Keyword.ofWord?_eq {a b : String} (h : Text.foldCase a = Text.foldCase b) :
    Keyword.ofWord? a = Keyword.ofWord? b := by
  simp only [Keyword.ofWord?, Text.sameName, h]

theorem LineIndex.ofText_eq {a b : String} (h : Text.foldCase a = Text.foldCase b) :
    LineIndex.ofText a = LineIndex.ofText b := by
  have hletters := Text.foldCase_eq_iff.mp h
  have hstarts : ∀ {cs ds : List Char}, Text.SameLetters cs ds →
      ∀ offset, LineIndex.startsFrom offset cs = LineIndex.startsFrom offset ds := by
    intro cs ds hcs
    induction hcs with
    | nil => exact fun _ => rfl
    | @cons c d _ _ hc _ ih =>
      intro offset
      have hnewline : c = '\n' ↔ d = '\n' := hc.eq_iff (by decide)
      simp only [LineIndex.startsFrom, hc.utf8Size_eq, hnewline, ih]
  unfold LineIndex.ofText Text.byteSize
  rw [hstarts hletters, hletters.byteLength_eq]

end SqlAnalysis

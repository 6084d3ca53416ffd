import SqlAnalysis.Binary64.Notation
import SqlAnalysis.Proofs.Text.Digits

/-!
# Floating-point values as numerals

The text of a finite value without a sign is a number for the lexer, and never one
without a point and an exponent.
-/
namespace SqlAnalysis

open Scan

namespace Scan

theorem Digits.append {ds es : List Char} (h : Digits ds) (h' : es.all Text.isDigit = true) :
    Digits (ds ++ es) :=
  ⟨List.append_ne_nil_of_left_ne_nil h.ne_nil es, by rw [List.all_append, h.all, h']; rfl⟩

theorem Digits.of_subset {ds es : List Char} (h : Digits ds) (hne : es ≠ []) (hsub : es ⊆ ds) :
    Digits es :=
  ⟨hne, List.all_eq_true.mpr fun c hc => List.all_eq_true.mp h.all c (hsub hc)⟩

/-- A number that is no run of digits. -/
structure RealNumeral (text : List Char) : Prop where
  numeral : Numeral text
  not_all : text.all Text.isDigit = false

/-- A point or the mark of an exponent is no digit. -/
theorem RealNumeral.point {whole ds exponent : List Char} (hwhole : Digits whole)
    (hds : Digits ds) (hexponent : Exponent exponent) :
    RealNumeral (whole ++ ('.' :: ds ++ exponent)) :=
  ⟨.mk hwhole (.point hds) hexponent, by simp [Text.isDigit]⟩

theorem RealNumeral.exponent {whole ds : List Char} (hwhole : Digits whole)
    (hexponent : Exponent ('e' :: ds)) : RealNumeral (whole ++ 'e' :: ds) :=
  ⟨.mk hwhole .none hexponent, by simp [Text.isDigit]⟩

theorem RealNumeral.natural?_eq_none {text : List Char} (h : RealNumeral text) :
    Text.natural? text = none := by
  simp [Text.natural?, h.not_all]

end Scan

namespace Binary64

theorem toList_toString_ofNat (n : Nat) :
    (toString (Int.ofNat n)).toList = Nat.toDigits 10 n := by
  rw [Int.toString_eq_repr, Int.repr, Nat.repr_eq_ofList_toDigits, String.toList_ofList]

theorem toList_toString_negSucc (n : Nat) :
    (toString (Int.negSucc n)).toList = '-' :: Nat.toDigits 10 (n + 1) := by
  rw [Int.toString_eq_repr, Int.repr, Nat.repr_eq_ofList_toDigits]
  simp

theorem exponent_toString (i : Int) : Exponent ('e' :: (toString i).toList) := by
  cases i with
  | ofNat n =>
    rw [toList_toString_ofNat]
    exact .mark (Text.digits_toDigits n)
  | negSucc n =>
    rw [toList_toString_negSucc]
    exact .minus (Text.digits_toDigits _)

theorem all_replicate_zero (n : Nat) : (List.replicate n '0').all Text.isDigit = true := by
  simp [Text.isDigit]

theorem digits_zero : Digits ['0'] :=
  ⟨List.cons_ne_nil _ _, rfl⟩

theorem Decimal.render_realNumeral (d : Decimal) : RealNumeral d.render.toList := by
  have hds := Text.digits_toDigits d.digits
  unfold Decimal.render
  dsimp only
  generalize hpoint : ((Nat.toDigits 10 d.digits).length : Int) + d.exponent = point
  generalize Nat.toDigits 10 d.digits = ds at hds
  split
  · split
    · rw [String.toList_ofList]
      have hfraction : Digits (List.replicate (-point).toNat '0' ++ ds) :=
        ⟨List.append_ne_nil_of_right_ne_nil _ hds.ne_nil, by
          rw [List.all_append, all_replicate_zero, hds.all]; rfl⟩
      simpa using RealNumeral.point digits_zero hfraction .none
    · split
      · rw [String.toList_ofList]
        exact .point (hds.append (all_replicate_zero _)) digits_zero .none
      · rw [String.toList_ofList]
        have htake : Digits (ds.take point.toNat) :=
          hds.of_subset (by simp [hds.ne_nil]; omega) (List.take_subset _ _)
        have hdrop : Digits (ds.drop point.toNat) :=
          hds.of_subset (by simp; omega) (List.drop_subset _ _)
        simpa using RealNumeral.point htake hdrop .none
  · rw [String.toList_append, String.toList_append, String.toList_ofList]
    have hexponent := exponent_toString (point - 1)
    match ds, hds with
    | [], hds => exact absurd rfl hds.ne_nil
    | [digit], hds => simpa using RealNumeral.exponent hds hexponent
    | first :: second :: rest, hds =>
      have hfirst : Digits [first] := hds.of_subset (by simp) (by simp)
      have hrest : Digits (second :: rest) := hds.of_subset (by simp) (by simp)
      simpa using RealNumeral.point hfirst hrest hexponent

theorem render_realNumeral (m : Nat) (q : Int) :
    RealNumeral (render (.finite false m q)).toList := by
  simp only [render, Bool.false_eq_true, if_false]
  split
  · exact .point digits_zero digits_zero .none
  · exact (shortest m q).render_realNumeral

end Binary64
end SqlAnalysis

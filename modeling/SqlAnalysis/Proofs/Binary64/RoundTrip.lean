import SqlAnalysis.Proofs.Binary64.Numerals
import SqlAnalysis.Proofs.Binary64.Shortest
import SqlAnalysis.Proofs.Syntax.Construction

/-!
# The text of a value is read as the value

A finite value without a sign is written as its shortest decimal, which is near it, and
everything near a value is read as the value.
-/
namespace SqlAnalysis

namespace Binary64

open Scan

/-! ### Reading -/

theorem dropWhile_append_of_follows {p : Char → Bool} {cs rest : List Char} (hcs : cs.all p)
    (h : Follows (fun c => !p c) rest) : (cs ++ rest).dropWhile p = rest := by
  rw [List.dropWhile_append_of_pos (by simpa using hcs)]
  cases rest with
  | nil => rfl
  | cons c rest =>
    have hc := follows_cons.mp h
    rw [List.dropWhile_cons_of_neg (by simpa using hc)]

theorem unsigned?_point {whole fraction tail : List Char} (hwhole : Digits whole)
    (hfraction : fraction.all Text.isDigit = true) (htail : Follows (fun c => !Text.isDigit c) tail) :
    unsigned? false (whole ++ '.' :: (fraction ++ tail)) = (exponentPart? tail).map fun e =>
      ofDecimal false (Text.digitsValue (whole ++ fraction)) (e - fraction.length) := by
  have hpoint : Follows (fun c => !Text.isDigit c) ('.' :: (fraction ++ tail)) :=
    follows_cons.mpr rfl
  unfold unsigned?
  rw [takeWhile_append_of_follows hwhole.all hpoint, dropWhile_append_of_follows hwhole.all hpoint]
  simp only [takeWhile_append_of_follows hfraction htail,
    dropWhile_append_of_follows hfraction htail]
  rw [if_neg (fun h => hwhole.ne_nil h.1)]

/-- A number with a point and no exponent. -/
theorem unsigned?_positional {whole fraction : List Char} (hwhole : Digits whole)
    (hfraction : fraction.all Text.isDigit = true) :
    unsigned? false (whole ++ '.' :: fraction) =
      some (ofDecimal false (Text.digitsValue (whole ++ fraction)) (-fraction.length)) := by
  have hread := unsigned?_point hwhole hfraction (.nil _)
  rw [List.append_nil] at hread
  simpa [exponentPart?] using hread

theorem unsigned?_whole {whole : List Char} (hwhole : Digits whole) (tail : List Char) :
    unsigned? false (whole ++ 'e' :: tail) = (exponentPart? ('e' :: tail)).map fun e =>
      ofDecimal false (Text.digitsValue whole) e := by
  have hmark : Follows (fun c => !Text.isDigit c) ('e' :: tail) := follows_cons.mpr rfl
  unfold unsigned?
  rw [takeWhile_append_of_follows hwhole.all hmark, dropWhile_append_of_follows hwhole.all hmark]
  dsimp only
  rw [if_neg (fun h => hwhole.ne_nil h.1)]
  simp

theorem exponentPart?_toString (i : Int) :
    exponentPart? ('e' :: (toString i).toList) = some i := by
  cases i with
  | ofNat n =>
    rw [toList_toString_ofNat]
    have hread := Text.natural?_toDigits n
    obtain ⟨c, ds, hdigits⟩ := List.exists_cons_of_ne_nil (Nat.toDigits_ne_nil (n := n) (b := 10))
    have hc : Text.isDigit c = true := (hdigits ▸ Text.digits_toDigits n).head
    rw [hdigits] at hread ⊢
    have hminus : c ≠ '-' := ne_of_isDigit hc rfl
    have hplus : c ≠ '+' := ne_of_isDigit hc rfl
    simp [exponentPart?, hread, hminus, hplus]
  | negSucc n =>
    rw [toList_toString_negSucc]
    simp [exponentPart?, Text.natural?_toDigits, Int.negSucc_eq]

/-- The text of a decimal is read as a decimal of the same value. -/
theorem Decimal.unsigned?_render (d : Decimal) : ∃ digits exponent,
    unsigned? false d.render.toList = some (ofDecimal false digits exponent) ∧
      (Decimal.mk digits exponent).value = d.value := by
  have hds := Text.digits_toDigits d.digits
  have hdigits := Text.digitsValue_toDigits d.digits
  unfold Decimal.render
  dsimp only
  generalize hpoint : ((Nat.toDigits 10 d.digits).length : Int) + d.exponent = point
  generalize Nat.toDigits 10 d.digits = ds at *
  split_ifs with hrange hsmall hlarge
  · have hfraction : (List.replicate (-point).toNat '0' ++ ds).all Text.isDigit = true := by
      rw [List.all_append, all_replicate_zero, hds.all]
      rfl
    have hvalue : Text.digitsValue (['0'] ++ (List.replicate (-point).toNat '0' ++ ds)) = d.digits := by
      rw [← hdigits]
      exact Text.digitsValue_zeros ((-point).toNat + 1) ds
    have hexponent : -((List.replicate (-point).toNat '0' ++ ds).length : Int) = d.exponent := by
      rw [List.length_append, List.length_replicate]
      omega
    have hread := unsigned?_positional digits_zero hfraction
    rw [hvalue, hexponent] at hread
    exact ⟨d.digits, d.exponent, by simpa using hread, rfl⟩
  · generalize hzeros : point.toNat - ds.length = zeros
    have hvalue : Text.digitsValue (ds ++ List.replicate zeros '0' ++ ['0']) =
        d.digits * 10 ^ (zeros + 1) := by
      rw [List.append_assoc, ← List.replicate_succ', Text.digitsValue_append_zeros, hdigits]
    have hread := unsigned?_positional (hds.append (all_replicate_zero zeros)) digits_zero.all
    rw [hvalue] at hread
    refine ⟨_, _, by simpa using hread, ?_⟩
    have hexponent : d.exponent = (zeros : Int) := by omega
    rw [Decimal.value, Decimal.value, hexponent]
    push_cast
    rw [zpow_neg_one, zpow_natCast, pow_succ]
    field_simp
  · have hwhole : Digits (ds.take point.toNat) :=
      hds.of_subset (by simp [hds.ne_nil]; omega) (List.take_subset _ _)
    have hfraction : (ds.drop point.toNat).all Text.isDigit = true :=
      (hds.of_subset (by simp; omega) (List.drop_subset point.toNat ds)).all
    have hexponent : -((ds.drop point.toNat).length : Int) = d.exponent := by
      rw [List.length_drop]
      omega
    have hread := unsigned?_positional hwhole hfraction
    rw [List.take_append_drop, hdigits, hexponent] at hread
    exact ⟨d.digits, d.exponent, by simpa using hread, rfl⟩
  · have hexponent := exponentPart?_toString (point - 1)
    rw [String.toList_append, String.toList_append, String.toList_ofList]
    match ds, hds with
    | [], hds => exact absurd rfl hds.ne_nil
    | [digit], hds =>
      have hread := unsigned?_whole hds (toString (point - 1)).toList
      rw [hexponent, hdigits] at hread
      refine ⟨d.digits, d.exponent, ?_, rfl⟩
      have hpoint' : point - 1 = d.exponent := by simp at hpoint; omega
      rw [← hpoint']
      simpa using hread
    | first :: second :: rest, hds =>
      have hfirst : Digits [first] := hds.of_subset (by simp) (by simp)
      have hrest : (second :: rest).all Text.isDigit = true :=
        (hds.of_subset (by simp) (by simp)).all
      have hmark : Follows (fun c => !Text.isDigit c) ('e' :: (toString (point - 1)).toList) :=
        follows_cons.mpr rfl
      have hread := unsigned?_point hfirst hrest hmark
      simp only [hexponent, List.singleton_append, hdigits] at hread
      refine ⟨d.digits, d.exponent, ?_, rfl⟩
      have hpoint' : point - 1 - ((second :: rest).length : Int) = d.exponent := by
        simp at hpoint ⊢
        omega
      rw [Option.map_some, hpoint'] at hread
      simpa using hread

/-! ### Values near a value -/

/-- The powers of two at the ends of the format are far from those of ten that bound it. -/
theorem two_pow_lt_ten_pow : (2 : ℚ) ^ 1075 < 10 ^ 400 := by
  calc (2 : ℚ) ^ 1075 < 2 ^ (3 * 400) := pow_lt_pow_right₀ (by norm_num) (by decide)
    _ = (2 ^ 3) ^ 400 := pow_mul 2 3 400
    _ ≤ 10 ^ 400 := pow_le_pow_left₀ (by norm_num) (by norm_num) 400

/-- All that is near a value is far from the decimals that are settled by their magnitude. -/
theorem Near.bounds {m : Nat} {q : Int} {v : ℚ} (hcanonical : Canonical m q) (hm : 0 < m)
    (h : Near m q v) : (10 : ℚ) ^ (-400 : Int) < v ∧ v < 10 ^ (400 : Int) := by
  have hlow : (2 : ℚ) ^ (-1074 : Int) ≤ 2 ^ q :=
    zpow_le_zpow_right₀ (by norm_num) hcanonical.le
  have hhigh : (2 : ℚ) ^ q ≤ 2 ^ (971 : Int) := zpow_le_zpow_right₀ (by norm_num) hcanonical.most
  have hm' : (1 : ℚ) ≤ m := by exact_mod_cast hm
  have hlt : (m : ℚ) + 1 ≤ 2 * 2 ^ 52 := by
    have hlt := hcanonical.lt
    rw [fullSignificand_eq] at hlt
    exact_mod_cast hlt
  have hpow : (0 : ℚ) < 2 ^ q := by positivity
  constructor
  · have hvalue : (2 : ℚ) ^ q ≤ 2 * v := by nlinarith [h.low, below_le m q]
    have hten : (10 : ℚ) ^ (-400 : Int) < 2 ^ (-1075 : Int) := by
      rw [zpow_neg, zpow_neg]
      exact inv_strictAnti₀ (by positivity) (by exact_mod_cast two_pow_lt_ten_pow)
    have hhalf : (2 : ℚ) ^ (-1074 : Int) = 2 * 2 ^ (-1075 : Int) := by
      rw [show (-1074 : Int) = 1 + -1075 by rfl, zpow_add₀ (by norm_num), zpow_one]
    linarith
  · have hten : (2 : ℚ) ^ (53 : Int) * 2 ^ (971 : Int) < 10 ^ (400 : Int) := by
      rw [← zpow_add₀ (by norm_num)]
      refine lt_trans (zpow_lt_zpow_right₀ (by norm_num) (show (53 + 971 : Int) < (1075 : Nat) by decide)) ?_
      exact_mod_cast two_pow_lt_ten_pow
    calc v < (m + 1) * 2 ^ q := by nlinarith [h.high]
      _ ≤ 2 * 2 ^ 52 * 2 ^ q := mul_le_mul_of_nonneg_right hlt hpow.le
      _ = 2 ^ (53 : Int) * 2 ^ q := by norm_num
      _ ≤ 2 ^ (53 : Int) * 2 ^ (971 : Int) := mul_le_mul_of_nonneg_left hhigh (by positivity)
      _ < 10 ^ (400 : Int) := hten

/-- A decimal near a value is read as the value. -/
theorem ofDecimal_near {digits m : Nat} {exponent q : Int} (hcanonical : Canonical m q)
    (hm : 0 < m) (h : Near m q (Decimal.mk digits exponent).value) :
    ofDecimal false digits exponent = .finite false m q := by
  obtain ⟨hlow, hhigh⟩ := h.bounds hcanonical hm
  have hpos : 0 < digits := by
    rcases Nat.eq_zero_or_pos digits with rfl | hpos
    · have hzero : (Decimal.mk 0 exponent).value = 0 := by simp [Decimal.value]
      rw [hzero] at hlow
      exact absurd hlow (not_lt.mpr (by positivity))
    · exact hpos
  obtain ⟨hdigits, hdigits'⟩ := length_toDigits_bounds hpos
  have hlength : 0 < (Nat.toDigits 10 digits).length := List.length_pos_iff.mpr Nat.toDigits_ne_nil
  unfold ofDecimal
  dsimp only
  generalize (Nat.toDigits 10 digits).length = length at *
  have hpow : (0 : ℚ) < 10 ^ exponent := by positivity
  have hmost : (10 : ℚ) ^ ((length : Int) + exponent - 1) ≤ (Decimal.mk digits exponent).value := by
    have hcast : (10 : ℚ) ^ (length - 1) ≤ digits := by exact_mod_cast hdigits
    rw [show (length : Int) + exponent - 1 = ((length - 1 : Nat) : Int) + exponent by omega,
      zpow_add₀ (by norm_num), zpow_natCast]
    exact mul_le_mul_of_nonneg_right hcast hpow.le
  have hleast : (Decimal.mk digits exponent).value < 10 ^ ((length : Int) + exponent) := by
    have hcast : (digits : ℚ) < 10 ^ length := by exact_mod_cast hdigits'
    rw [zpow_add₀ (by norm_num), zpow_natCast]
    exact mul_lt_mul_of_pos_right hcast hpow
  have habove := (zpow_lt_zpow_iff_right₀ (by norm_num)).mp (lt_of_le_of_lt hmost hhigh)
  have hbelow := (zpow_lt_zpow_iff_right₀ (by norm_num)).mp (lt_trans hlow hleast)
  rw [if_neg hpos.ne', if_neg (by omega), if_neg (by omega)]
  have hvalue := Neighbourhood.decimal_eq digits exponent
  split_ifs with hsign
  · have hone : tenTo (-exponent).toNat = 1 := by
      rw [Int.toNat_of_nonpos (by omega)]
      rfl
    rw [hone] at hvalue
    refine ofQuotient_near false hcanonical (Nat.mul_pos hpos (Neighbourhood.tenTo_pos _))
      Nat.one_pos ?_
    rw [hvalue]
    exact h
  · have hone : tenTo exponent.toNat = 1 := by
      rw [Int.toNat_of_nonpos (by omega)]
      rfl
    rw [hone, Nat.mul_one] at hvalue
    refine ofQuotient_near false hcanonical hpos (Neighbourhood.tenTo_pos _) ?_
    rw [hvalue]
    exact h

theorem ofDecimal_canonical (digits : Nat) (exponent : Int) :
    ofDecimal false digits exponent = .infinite false ∨
      ∃ m q, ofDecimal false digits exponent = .finite false m q ∧ Canonical m q := by
  unfold ofDecimal
  dsimp only
  split_ifs
  · exact .inr ⟨0, minExponent, rfl, canonical_zero⟩
  · exact .inl rfl
  · exact .inr ⟨0, minExponent, rfl, canonical_zero⟩
  · exact ofQuotient_canonical false Nat.one_pos
  · exact ofQuotient_canonical false (Neighbourhood.tenTo_pos _)

/-- The text of a canonical value is read as the value. -/
theorem Canonical.readsBack {m : Nat} {q : Int} (h : Canonical m q) :
    (finite false m q).ReadsBack := by
  refine ⟨⟨m, q, rfl⟩, ?_⟩
  rcases Nat.eq_zero_or_pos m with rfl | hm
  · obtain rfl : q = minExponent := h.full.resolve_right (by decide)
    have hread := unsigned?_positional digits_zero digits_zero.all
    exact hread
  · have htext : (finite false m q).render = (shortest m q).render := by
      simp [render, hm.ne']
    obtain ⟨digits, exponent, hread, hvalue⟩ := (shortest m q).unsigned?_render
    rw [htext, hread, ofDecimal_near h hm (hvalue ▸ shortest_near hm h.lt)]

/-- Every number that is read, unless it is beyond all finite ones, is read back. -/
theorem readsBack_of_unsigned? {text : List Char} {x : Binary64}
    (h : unsigned? false text = some x) (hx : x ≠ .infinite false) : x.ReadsBack := by
  obtain ⟨digits, exponent, rfl⟩ : ∃ digits exponent, x = ofDecimal false digits exponent := by
    unfold unsigned? at h
    dsimp only at h
    split at h <;>
    · split_ifs at h
      obtain ⟨e, -, rfl⟩ := Option.map_eq_some_iff.mp h
      exact ⟨_, _, rfl⟩
  rcases ofDecimal_canonical digits exponent with hinfinite | ⟨m, q, hfinite, hcanonical⟩
  · exact absurd hinfinite hx
  · rw [hfinite]
    exact hcanonical.readsBack

end Binary64
end SqlAnalysis

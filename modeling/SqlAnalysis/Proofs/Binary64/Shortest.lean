import Mathlib.Data.Nat.Cast.Order.Field
import SqlAnalysis.Binary64.Shortest
import SqlAnalysis.Proofs.Binary64.Rounding

/-!
# The shortest decimal is near its value

The search for a short decimal stops at the first grid that meets the interval of the
numbers that round to a value. Twenty grids are enough: the last of them is finer than the
distance from the value to the lower end of its interval.
-/
namespace SqlAnalysis.Binary64

/-- The number that a decimal writes. -/
def Decimal.value (d : Decimal) : ℚ := d.digits * 10 ^ d.exponent

/-- The number of digits fixes a number up to a factor of ten. -/
theorem length_toDigits_bounds {n : Nat} (hn : 0 < n) :
    10 ^ ((Nat.toDigits 10 n).length - 1) ≤ n ∧ n < 10 ^ (Nat.toDigits 10 n).length := by
  have hpos : 0 < (Nat.toDigits 10 n).length := List.length_pos_iff.mpr Nat.toDigits_ne_nil
  refine ⟨?_, (Nat.length_toDigits_le_iff (by decide) hpos).mp (le_refl _)⟩
  by_cases hone : (Nat.toDigits 10 n).length = 1
  · rw [hone]
    exact hn
  · refine not_lt.mp fun hlt => ?_
    have hle := (Nat.length_toDigits_le_iff (by decide) (by omega)).mpr hlt
    omega

namespace Neighbourhood

variable {m d : Nat} {q e : Int}

/-- Denominator and scale of an interval, as it is compared with decimals. -/
theorem scale_eq (x : Nat) (q : Int) :
    ((x * twoTo q.toNat : Nat) : ℚ) / ((4 * twoTo (-q).toNat : Nat) : ℚ) = x * 2 ^ q / 4 := by
  rw [← toNat_ratio 2 q]
  push_cast
  rw [cast_twoTo, cast_twoTo]
  field_simp

theorem decimal_eq (x : Nat) (e : Int) :
    ((x * tenTo e.toNat : Nat) : ℚ) / ((tenTo (-e).toNat : Nat) : ℚ) = x * 10 ^ e := by
  rw [← toNat_ratio 10 e]
  push_cast
  rw [cast_tenTo, cast_tenTo]
  ring

theorem denominator_pos (m : Nat) (q : Int) : 0 < (neighbourhood m q).denominator :=
  Nat.mul_pos (by decide) (twoTo_pos _)

theorem tenTo_pos (n : Nat) : 0 < tenTo n := Nat.pow_pos (by decide)

/-- Comparing products is comparing the numbers. -/
theorem le_iff {a b x y : Nat} (hx : 0 < x) (hy : 0 < y) :
    a * y ≤ b * x ↔ (a / x : ℚ) ≤ b / y := by
  rw [div_le_div_iff₀ (by positivity) (by positivity)]
  norm_cast

theorem lt_iff {a b x y : Nat} (hx : 0 < x) (hy : 0 < y) :
    a * y < b * x ↔ (a / x : ℚ) < b / y := by
  rw [div_lt_div_iff₀ (by positivity) (by positivity)]
  norm_cast

theorem below_le_four (hm : 0 < m) (q : Int) : below m q ≤ 4 * m := by
  have hle : below m q ≤ 2 := by exact_mod_cast below_le m q
  omega

theorem low_ratio (hm : 0 < m) (q : Int) :
    ((neighbourhood m q).low : ℚ) / (neighbourhood m q).denominator =
      (4 * m - below m q) * 2 ^ q / 4 := by
  refine (scale_eq (4 * m - below m q) q).trans ?_
  push_cast [Nat.cast_sub (below_le_four hm q)]
  rfl

theorem high_ratio (m : Nat) (q : Int) :
    ((neighbourhood m q).high : ℚ) / (neighbourhood m q).denominator =
      (4 * m + 2) * 2 ^ q / 4 := by
  refine (scale_eq (4 * m + 2) q).trans ?_
  push_cast
  rfl

theorem value_ratio (m : Nat) (q : Int) :
    ((neighbourhood m q).value : ℚ) / (neighbourhood m q).denominator = m * 2 ^ q := by
  refine (scale_eq (4 * m) q).trans ?_
  push_cast
  ring

/-- The interval holds the decimals between its ends, and the ends if the significand is
even. -/
theorem holds_iff (hm : 0 < m) : (neighbourhood m q).holds d e = true ↔
    if m % 2 = 0 then
      (4 * m - below m q : ℚ) * 2 ^ q ≤ 4 * (d * 10 ^ e) ∧ 4 * (d * 10 ^ e : ℚ) ≤ (4 * m + 2) * 2 ^ q
    else
      (4 * m - below m q : ℚ) * 2 ^ q < 4 * (d * 10 ^ e) ∧
        4 * (d * 10 ^ e : ℚ) < (4 * m + 2) * 2 ^ q := by
  have hden := denominator_pos m q
  have hten := tenTo_pos (-e).toNat
  have hclosed : (neighbourhood m q).closed = (m % 2 == 0) := rfl
  unfold holds
  dsimp only
  rw [hclosed]
  split_ifs with heven hparity hparity
  · simp only [Bool.and_eq_true, decide_eq_true_eq]
    rw [le_iff hden hten, le_iff hten hden, decimal_eq, low_ratio hm, high_ratio,
      div_le_iff₀' (by norm_num), le_div_iff₀' (by norm_num)]
  · exact absurd (by simpa using heven) hparity
  · exact absurd (by simpa using hparity) heven
  · simp only [Bool.and_eq_true, decide_eq_true_eq]
    rw [lt_iff hden hten, lt_iff hten hden, decimal_eq, low_ratio hm, high_ratio,
      div_lt_iff₀' (by norm_num), lt_div_iff₀' (by norm_num)]

/-- What the interval holds is near the value. -/
theorem near_of_holds (hm : 0 < m) (h : (neighbourhood m q).holds d e = true) :
    Near m q (d * 10 ^ e) := by
  rw [holds_iff hm] at h
  split_ifs at h with heven
  · exact ⟨h.1, h.2, fun hodd => by omega⟩
  · exact ⟨h.1.le, h.2.le, fun _ => h⟩

theorem holds_of_lt (hm : 0 < m) (hlow : (4 * m - below m q : ℚ) * 2 ^ q < 4 * (d * 10 ^ e))
    (hhigh : 4 * (d * 10 ^ e : ℚ) < (4 * m + 2) * 2 ^ q) :
    (neighbourhood m q).holds d e = true := by
  rw [holds_iff hm]
  split_ifs
  · exact ⟨hlow.le, hhigh.le⟩
  · exact ⟨hlow, hhigh⟩

/-! ### The search -/

/-- The multiple of a power of ten below a value. -/
theorem floorAt_bounds (m : Nat) (q e : Int) :
    ((neighbourhood m q).floorAt e : ℚ) * 10 ^ e ≤ m * 2 ^ q ∧
      (m * 2 ^ q : ℚ) < ((neighbourhood m q).floorAt e + 1) * 10 ^ e := by
  have hden := denominator_pos m q
  have hpos : 0 < (neighbourhood m q).denominator * tenTo e.toNat :=
    Nat.mul_pos hden (tenTo_pos _)
  have hratio : (((neighbourhood m q).value * tenTo (-e).toNat : Nat) : ℚ) /
      (((neighbourhood m q).denominator * tenTo e.toNat : Nat) : ℚ) = m * 2 ^ q / 10 ^ e := by
    rw [← value_ratio m q, ← toNat_ratio 10 e]
    push_cast
    rw [cast_tenTo, cast_tenTo]
    field_simp
  have hpow : (0 : ℚ) < 10 ^ e := by positivity
  unfold floorAt
  constructor
  · rw [← le_div_iff₀ hpow, ← hratio]
    exact Nat.cast_div_le
  · rw [← div_lt_iff₀ hpow, ← hratio, div_lt_iff₀ (by exact_mod_cast hpos)]
    generalize (neighbourhood m q).value * tenTo (-e).toNat = num
    generalize (neighbourhood m q).denominator * tenTo e.toNat = den at *
    have hlt : num < (num / den + 1) * den := by
      rw [Nat.mul_comm]
      exact Nat.lt_mul_div_succ num hpos
    exact_mod_cast hlt

theorem onGrid?_holds {n : Neighbourhood} {found : Decimal} (h : n.onGrid? e = some found) :
    n.holds found.digits found.exponent = true := by
  unfold onGrid? at h
  dsimp only at h
  split at h
  · next hbelow habove =>
    cases h
    split_ifs
    · exact hbelow
    · exact habove
  · next hbelow habove =>
    cases h
    exact hbelow
  · next hbelow habove =>
    cases h
    exact habove
  · cases h

/-- The search ends at something that is held, if it passes a grid whose lower multiple is
held. -/
theorem search_holds (n : Neighbourhood) {steps k : Nat} (hk : k < steps)
    (h : n.holds (n.floorAt (e - k)) (e - k) = true) :
    n.holds (n.search steps e).digits (n.search steps e).exponent = true := by
  induction steps generalizing e k with
  | zero => omega
  | succ steps ih =>
    rw [search]
    cases hgrid : n.onGrid? e with
    | some found => exact onGrid?_holds hgrid
    | none =>
      cases k with
      | zero =>
        rw [Nat.cast_zero, Int.sub_zero] at h
        unfold onGrid? at hgrid
        simp only [h] at hgrid
        split at hgrid <;> simp_all
      | succ k =>
        refine ih (k := k) (by omega) ?_
        rw [show e - 1 - (k : Int) = e - ((k + 1 : Nat) : Int) by push_cast; ring]
        exact h

/-- The power of ten two below the first grid is less than the value. -/
theorem topExponent_lt (hm : 0 < m) (q : Int) :
    (10 : ℚ) ^ ((neighbourhood m q).topExponent - 2) < m * 2 ^ q := by
  have hvalue : 0 < (neighbourhood m q).value :=
    Nat.mul_pos (Nat.mul_pos (by decide) hm) (twoTo_pos _)
  obtain ⟨hlow, -⟩ := length_toDigits_bounds hvalue
  obtain ⟨-, hhigh⟩ := length_toDigits_bounds (denominator_pos m q)
  have hden := denominator_pos m q
  rw [← value_ratio m q, topExponent]
  generalize (neighbourhood m q).value = value at *
  generalize (neighbourhood m q).denominator = den at *
  have hpow : (10 : ℚ) ^ (((Nat.toDigits 10 value).length : Int) - (Nat.toDigits 10 den).length + 1 - 2) =
      10 ^ ((Nat.toDigits 10 value).length - 1) / 10 ^ (Nat.toDigits 10 den).length := by
    have hlength : 0 < (Nat.toDigits 10 value).length := List.length_pos_iff.mpr Nat.toDigits_ne_nil
    rw [← zpow_natCast, ← zpow_natCast, ← zpow_sub₀ (by norm_num)]
    congr 1
    push_cast [Nat.cast_sub hlength]
    ring
  rw [hpow]
  refine div_lt_div₀' ?_ ?_ (by positivity) (by positivity)
  · exact_mod_cast hlow
  · exact_mod_cast hhigh

end Neighbourhood

/-- The decimal that is found is near the value. -/
theorem search_near {m : Nat} {q : Int} (hm : 0 < m) (hlt : m < 2 * fullSignificand) :
    Near m q ((neighbourhood m q).search 20 (neighbourhood m q).topExponent).value := by
  refine Neighbourhood.near_of_holds hm (Neighbourhood.search_holds _ (show 19 < 20 by decide) ?_)
  generalize htop : (neighbourhood m q).topExponent = top
  obtain ⟨hle, hgt⟩ := Neighbourhood.floorAt_bounds m q (top - (19 : Nat))
  have hvalue := Neighbourhood.topExponent_lt hm q
  rw [htop] at hvalue
  generalize (neighbourhood m q).floorAt (top - (19 : Nat)) = d at *
  have hpow : (0 : ℚ) < 2 ^ q := by positivity
  have hstep : (10 : ℚ) ^ (top - (19 : Nat)) = 10 ^ (top - 2) / 10 ^ 17 := by
    rw [← zpow_natCast, ← zpow_sub₀ (by norm_num)]
    congr 1
    push_cast
    ring
  -- The grid is finer than a quarter of the distance between values.
  have hfine : (4 : ℚ) * 10 ^ (top - (19 : Nat)) < 2 ^ q := by
    have hm' : (m : ℚ) ≤ 2 * 2 ^ 52 := by
      rw [fullSignificand_eq] at hlt
      exact_mod_cast hlt.le
    have hbound := mul_le_mul_of_nonneg_right hm' hpow.le
    rw [hstep]
    linarith
  refine Neighbourhood.holds_of_lt hm ?_ ?_
  · nlinarith [one_le_below m q]
  · nlinarith

theorem Decimal.strip_value (fuel : Nat) (d : Decimal) : (d.strip fuel).value = d.value := by
  induction fuel generalizing d with
  | zero => rfl
  | succ fuel ih =>
    rw [strip]
    split_ifs with hzero
    · rw [ih]
      have hdigits : (d.digits : ℚ) = 10 * ((d.digits / 10 : Nat) : ℚ) := by
        have h : d.digits = 10 * (d.digits / 10) := by omega
        exact_mod_cast h
      unfold value
      rw [hdigits, zpow_add_one₀ (by norm_num)]
      ring
    · rfl

theorem shortest_near {m : Nat} {q : Int} (hm : 0 < m) (hlt : m < 2 * fullSignificand) :
    Near m q (shortest m q).value := by
  unfold shortest
  dsimp only
  rw [Decimal.strip_value]
  exact search_near hm hlt

end SqlAnalysis.Binary64

import Mathlib.Algebra.Order.Archimedean.Basic
import Mathlib.Algebra.Order.Field.Power
import Mathlib.Data.Rat.Cast.Order
import Mathlib.Tactic.FieldSimp
import Mathlib.Tactic.GCongr
import Mathlib.Tactic.Linarith
import Mathlib.Tactic.NormNum
import Mathlib.Tactic.Positivity
import Mathlib.Tactic.SplitIfs
import SqlAnalysis.Binary64.Basic

/-!
# Rounding a quotient

The quotients that round to a value are those of an interval around it: half the distance
to the next value on either side, the ends only if the significand is even. The distance
below a power of two is half of that above.
-/
namespace SqlAnalysis.Binary64

/-! ### Scaling -/

/-- A fraction with all of a power in one place. -/
theorem toNat_ratio (b : ℚ) (q : Int) : b ^ q.toNat / b ^ (-q).toNat = b ^ q := by
  obtain ⟨n, rfl | rfl⟩ := q.eq_nat_or_neg
  · simp
  · simp

theorem cast_twoTo (n : Nat) : ((twoTo n : Nat) : ℚ) = 2 ^ n := by
  rw [twoTo, Nat.pow_eq]
  push_cast
  rfl

theorem cast_tenTo (n : Nat) : ((tenTo n : Nat) : ℚ) = 10 ^ n := by
  rw [tenTo, Nat.pow_eq]
  push_cast
  rfl

theorem fullSignificand_eq : fullSignificand = 2 ^ 52 := rfl

/-! ### Rounding to an integer -/

section

variable {num den m : Nat}

/-- A quotient no farther than one half from a number rounds to it, but a tie only if the
number is even. -/
theorem roundQuotient_eq (hden : 0 < den) (hlow : 2 * m * den ≤ 2 * num + den)
    (hhigh : 2 * num ≤ (2 * m + 1) * den)
    (hodd : m % 2 = 1 → 2 * m * den < 2 * num + den ∧ 2 * num < (2 * m + 1) * den) :
    roundQuotient num den = m := by
  have hsplit : den * (num / den) + num % den = num := Nat.div_add_mod num den
  have hrest : num % den < den := Nat.mod_lt num hden
  unfold roundQuotient
  dsimp only
  generalize num / den = quotient at *
  generalize num % den = rest at *
  subst hsplit
  have hle : m ≤ quotient + 1 := by nlinarith
  have hge : quotient ≤ m := by nlinarith
  obtain rfl | rfl : m = quotient ∨ m = quotient + 1 := by omega
  · have hhalf : 2 * rest ≤ den := by nlinarith
    split_ifs with hless hmore
    · rfl
    · omega
    · have heven : m % 2 = 0 := by
        by_contra hne
        have hstrict := (hodd (by omega)).2
        nlinarith
      omega
  · have hhalf : den ≤ 2 * rest := by nlinarith
    split_ifs with hless hmore
    · omega
    · rfl
    · have heven : (quotient + 1) % 2 = 0 := by
        by_contra hne
        have hstrict := (hodd (by omega)).1
        nlinarith
      omega

theorem le_roundQuotient (hden : 0 < den) (h : m * den ≤ num) : m ≤ roundQuotient num den := by
  have hquotient : m ≤ num / den := (Nat.le_div_iff_mul_le hden).mpr h
  unfold roundQuotient
  dsimp only
  split_ifs <;> omega

theorem roundQuotient_le (hden : 0 < den) (h : num < m * den) : roundQuotient num den ≤ m := by
  have hquotient : num / den < m := (Nat.div_lt_iff_lt_mul hden).mpr h
  unfold roundQuotient
  dsimp only
  split_ifs <;> omega

end

/-! ### The exponent -/

section

variable {num den : Nat} {q : Int} {w : ℚ}

/-- Numerator and denominator, one of them multiplied by a power of two. -/
theorem cast_scaled (hden : 0 < den) (hw : (num / den : ℚ) = w * 2 ^ q) :
    ((num * twoTo (-q).toNat : Nat) : ℚ) = w * ((den * twoTo q.toNat : Nat) : ℚ) := by
  have hden' : (den : ℚ) ≠ 0 := by positivity
  have hnum : (num : ℚ) = w * 2 ^ q * den := by rw [← hw, div_mul_cancel₀ _ hden']
  rw [← toNat_ratio 2 q] at hnum
  push_cast
  rw [cast_twoTo, cast_twoTo, hnum]
  field_simp

/-- Only one of the two powers is not one. -/
theorem twoTo_toNat_of_neg (hq : ¬ 0 ≤ q) : twoTo q.toNat = 1 := by
  rw [Int.toNat_of_nonpos (by omega)]
  rfl

theorem twoTo_toNat_neg (hq : 0 ≤ q) : twoTo (-q).toNat = 1 := by
  rw [Int.toNat_of_nonpos (by omega)]
  rfl

theorem twoTo_pos (n : Nat) : 0 < twoTo n := Nat.two_pow_pos n

theorem scaled_le_iff {m : Nat} (hden : 0 < den) (hw : (num / den : ℚ) = w * 2 ^ q) :
    m * (den * twoTo q.toNat) ≤ num * twoTo (-q).toNat ↔ (m : ℚ) ≤ w := by
  have hpos : (0 : ℚ) < ((den * twoTo q.toNat : Nat) : ℚ) := by
    have := Nat.mul_pos hden (twoTo_pos q.toNat)
    exact_mod_cast this
  rw [← Nat.cast_le (α := ℚ), cast_scaled hden hw, Nat.cast_mul, mul_le_mul_iff_left₀ hpos]

/-- The logarithms of numerator and denominator fix that of the quotient up to one. -/
theorem log2_quotient (hnum : 0 < num) (hden : 0 < den) :
    (2 : ℚ) ^ ((num.log2 : Int) - den.log2 - 1) < num / den ∧
      (num / den : ℚ) < 2 ^ ((num.log2 : Int) - den.log2 + 1) := by
  have hnumLow : (2 : ℚ) ^ num.log2 ≤ num := by exact_mod_cast Nat.log2_self_le hnum.ne'
  have hnumHigh : (num : ℚ) < 2 ^ (num.log2 + 1) := by exact_mod_cast Nat.lt_log2_self
  have hdenLow : (2 : ℚ) ^ den.log2 ≤ den := by exact_mod_cast Nat.log2_self_le hden.ne'
  have hdenHigh : (den : ℚ) < 2 ^ (den.log2 + 1) := by exact_mod_cast Nat.lt_log2_self
  have hlow : (2 : ℚ) ^ ((num.log2 : Int) - den.log2 - 1) = 2 ^ num.log2 / 2 ^ (den.log2 + 1) := by
    rw [← zpow_natCast, ← zpow_natCast, ← zpow_sub₀ (by norm_num)]
    congr 1
    push_cast
    ring
  have hhigh : (2 : ℚ) ^ ((num.log2 : Int) - den.log2 + 1) = 2 ^ (num.log2 + 1) / 2 ^ den.log2 := by
    rw [← zpow_natCast, ← zpow_natCast, ← zpow_sub₀ (by norm_num)]
    congr 1
    push_cast
    ring
  rw [hlow, hhigh]
  constructor
  · exact div_lt_div₀' hnumLow hdenHigh (by positivity) (by positivity)
  · exact div_lt_div₀ hnumHigh hdenLow (by positivity) (by positivity)

theorem exponentOf_eq (hnum : 0 < num) (hden : 0 < den) {g : Int}
    (hlow : (2 : ℚ) ^ (52 + g) ≤ num / den) (hhigh : (num / den : ℚ) < 2 ^ (53 + g)) :
    exponentOf num den = max minExponent g := by
  obtain ⟨hlog, hlog'⟩ := log2_quotient hnum hden
  unfold exponentOf
  dsimp only
  generalize hguess : (num.log2 : Int) - den.log2 - 52 = guess
  have hle : g ≤ guess := by
    have hlt := (zpow_lt_zpow_iff_right₀ (by norm_num)).mp (lt_of_le_of_lt hlow hlog')
    omega
  have hge : guess ≤ g + 1 := by
    have hlt := (zpow_lt_zpow_iff_right₀ (by norm_num)).mp (lt_trans hlog hhigh)
    omega
  have hfits : (if 0 ≤ guess then decide (fullSignificand * (den * twoTo guess.toNat) ≤ num)
      else decide (fullSignificand * den ≤ num * twoTo (-guess).toNat)) = decide (guess = g) := by
    have hscale : (num / den : ℚ) = num / den / 2 ^ guess * 2 ^ guess :=
      (div_mul_cancel₀ _ (by positivity)).symm
    have hcases : (if 0 ≤ guess then decide (fullSignificand * (den * twoTo guess.toNat) ≤ num)
        else decide (fullSignificand * den ≤ num * twoTo (-guess).toNat)) =
        decide (fullSignificand * (den * twoTo guess.toNat) ≤ num * twoTo (-guess).toNat) := by
      split_ifs with hsign
      · rw [twoTo_toNat_neg hsign, Nat.mul_one]
      · rw [twoTo_toNat_of_neg hsign, Nat.mul_one]
    rw [hcases, decide_eq_decide, scaled_le_iff hden hscale, le_div_iff₀ (by positivity),
      fullSignificand_eq]
    push_cast
    obtain rfl | rfl : guess = g ∨ guess = g + 1 := by omega
    · rw [zpow_add₀ (by norm_num)] at hlow
      norm_num at hlow ⊢
      exact hlow
    · rw [show (53 : Int) + g = 52 + (g + 1) by ring, zpow_add₀ (by norm_num)] at hhigh
      norm_num at hhigh ⊢
      exact hhigh
  rw [hfits]
  obtain rfl | rfl : guess = g ∨ guess = g + 1 := by omega
  · simp
  · simp

/-- Every positive quotient has a binary order of magnitude. -/
theorem exists_exponent (hnum : 0 < num) (hden : 0 < den) :
    ∃ g : Int, (2 : ℚ) ^ (52 + g) ≤ num / den ∧ (num / den : ℚ) < 2 ^ (53 + g) := by
  obtain ⟨n, hlow, hhigh⟩ := exists_mem_Ico_zpow (x := (num / den : ℚ)) (y := 2) (by positivity)
    (by norm_num)
  refine ⟨n - 52, ?_, ?_⟩
  · rwa [show 52 + (n - 52) = n by ring]
  · rwa [show 53 + (n - 52) = n + 1 by ring]

/-! ### Values -/

/-- Significand and exponent of a finite value: full, or else with the least exponent. -/
structure Canonical (m : Nat) (q : Int) : Prop where
  lt : m < 2 * fullSignificand
  le : minExponent ≤ q
  full : q = minExponent ∨ fullSignificand ≤ m
  most : q ≤ maxExponent

/-- Four times the distance from a value to the end of its interval below, in units of its
exponent. -/
def below (m : Nat) (q : Int) : Nat :=
  if m = fullSignificand ∧ minExponent < q then 1 else 2

/-- The numbers that round to a value. -/
structure Near (m : Nat) (q : Int) (v : ℚ) : Prop where
  low : (4 * m - below m q) * 2 ^ q ≤ 4 * v
  high : 4 * v ≤ (4 * m + 2) * 2 ^ q
  strict : m % 2 = 1 → (4 * m - below m q) * 2 ^ q < 4 * v ∧ 4 * v < (4 * m + 2) * 2 ^ q

theorem significand_scaled (num den : Nat) (q : Int) :
    (if 0 ≤ q then roundQuotient num (den * twoTo q.toNat)
      else roundQuotient (num * twoTo (-q).toNat) den) =
      roundQuotient (num * twoTo (-q).toNat) (den * twoTo q.toNat) := by
  split_ifs with hsign
  · rw [twoTo_toNat_neg hsign, Nat.mul_one]
  · rw [twoTo_toNat_of_neg hsign, Nat.mul_one]

/-- The significand under a given exponent. -/
theorem significand_eq {m : Nat} (hden : 0 < den) (hw : (num / den : ℚ) = w * 2 ^ q)
    (hlow : 2 * m ≤ 2 * w + 1) (hhigh : 2 * w ≤ 2 * m + 1)
    (hodd : m % 2 = 1 → 2 * m < 2 * w + 1 ∧ 2 * w < 2 * m + 1) :
    (if 0 ≤ q then roundQuotient num (den * twoTo q.toNat)
      else roundQuotient (num * twoTo (-q).toNat) den) = m := by
  have hpos : 0 < den * twoTo q.toNat := Nat.mul_pos hden (twoTo_pos _)
  have hpos' : (0 : ℚ) < ((den * twoTo q.toNat : Nat) : ℚ) := by exact_mod_cast hpos
  have hnum := cast_scaled hden hw
  rw [significand_scaled]
  generalize num * twoTo (-q).toNat = scaledNum at hnum
  generalize den * twoTo q.toNat = scaledDen at *
  refine roundQuotient_eq hpos ?_ ?_ fun hm => ⟨?_, ?_⟩
  · have h : (2 * m * scaledDen : ℚ) ≤ 2 * scaledNum + scaledDen := by rw [hnum]; nlinarith
    exact_mod_cast h
  · have h : (2 * scaledNum : ℚ) ≤ (2 * m + 1) * scaledDen := by rw [hnum]; nlinarith
    exact_mod_cast h
  · have h : (2 * m * scaledDen : ℚ) < 2 * scaledNum + scaledDen := by rw [hnum]; nlinarith [(hodd hm).1]
    exact_mod_cast h
  · have h : (2 * scaledNum : ℚ) < (2 * m + 1) * scaledDen := by rw [hnum]; nlinarith [(hodd hm).2]
    exact_mod_cast h

/-- Rounding under a known exponent. -/
theorem ofQuotient_eq (negative : Bool) (hnum : 0 < num) (hq : exponentOf num den = q) {m : Nat}
    (hm : (if 0 ≤ q then roundQuotient num (den * twoTo q.toNat)
      else roundQuotient (num * twoTo (-q).toNat) den) = m) :
    ofQuotient negative num den =
      if m = 2 * fullSignificand then
        if maxExponent < q + 1 then .infinite negative else .finite negative fullSignificand (q + 1)
      else if maxExponent < q then .infinite negative else .finite negative m q := by
  unfold ofQuotient
  rw [if_neg hnum.ne', hq]
  dsimp only
  rw [hm]
  split_ifs <;> rfl

theorem below_le (m : Nat) (q : Int) : (below m q : ℚ) ≤ 2 := by
  unfold below
  split_ifs <;> norm_num

theorem one_le_below (m : Nat) (q : Int) : (1 : ℚ) ≤ below m q := by
  unfold below
  split_ifs <;> norm_num

/-- The exponent under which the quotient is less than twice a full significand, and no
less than that unless the exponent is the least. -/
theorem exponentOf_of_bounds (hnum : 0 < num) (hden : 0 < den)
    (hw : (num / den : ℚ) = w * 2 ^ q) (hq : minExponent ≤ q) (hlt : w < 2 * fullSignificand)
    (hfull : q = minExponent ∨ (fullSignificand : ℚ) ≤ w) : exponentOf num den = q := by
  have hpow : (0 : ℚ) < 2 ^ q := by positivity
  rw [fullSignificand_eq] at hlt hfull
  have hhigh : (num / den : ℚ) < 2 ^ (53 + q) := by
    rw [hw, zpow_add₀ (by norm_num)]
    refine mul_lt_mul_of_pos_right ?_ hpow
    norm_num at hlt ⊢
    exact hlt
  rcases hfull with rfl | hfull
  · obtain ⟨g, hlow, hhigh'⟩ := exists_exponent hnum hden
    rw [exponentOf_eq hnum hden hlow hhigh']
    have hle := (zpow_lt_zpow_iff_right₀ (by norm_num)).mp (lt_of_le_of_lt hlow hhigh)
    omega
  · have hlow : (2 : ℚ) ^ (52 + q) ≤ num / den := by
      rw [hw, zpow_add₀ (by norm_num)]
      refine mul_le_mul_of_nonneg_right ?_ hpow.le
      norm_num at hfull ⊢
      exact hfull
    rw [exponentOf_eq hnum hden hlow hhigh, max_eq_right hq]

/-- A quotient near a value rounds to it. -/
theorem ofQuotient_near {m : Nat} {q : Int} (negative : Bool) (hcanonical : Canonical m q)
    (hnum : 0 < num) (hden : 0 < den) (h : Near m q (num / den)) :
    ofQuotient negative num den = .finite negative m q := by
  have hpow : (0 : ℚ) < 2 ^ q := by positivity
  obtain ⟨w, hw⟩ : ∃ w : ℚ, (num / den : ℚ) = w * 2 ^ q :=
    ⟨num / den / 2 ^ q, (div_mul_cancel₀ _ hpow.ne').symm⟩
  obtain ⟨hlow, hhigh, hstrict⟩ := h
  rw [hw, ← mul_assoc] at hlow hhigh
  replace hlow := le_of_mul_le_mul_right hlow hpow
  replace hhigh := le_of_mul_le_mul_right hhigh hpow
  have hlt : (m : ℚ) + 1 ≤ 2 * fullSignificand := by exact_mod_cast hcanonical.lt
  by_cases hshort : (m = fullSignificand ∧ minExponent < q) ∧ w < m
  · -- Just below a power of two the exponent is one less, and rounding goes up to the power.
    obtain ⟨⟨rfl, hq⟩, hless⟩ := hshort
    have hbelow : below fullSignificand q = 1 := if_pos ⟨rfl, hq⟩
    rw [hbelow] at hlow
    push_cast at hlow
    have hw' : (num / den : ℚ) = 2 * w * 2 ^ (q - 1) := by
      rw [hw, zpow_sub_one₀ (by norm_num)]
      ring
    have hexponent : exponentOf num den = q - 1 :=
      exponentOf_of_bounds hnum hden hw' (by omega) (by linarith) (.inr (by linarith))
    have hsignificand := significand_eq (m := 2 * fullSignificand) hden hw' (by push_cast; linarith)
      (by push_cast; linarith) (fun hodd => absurd hodd (by decide))
    have hmost := hcanonical.most
    rw [ofQuotient_eq negative hnum hexponent hsignificand, if_pos rfl, if_neg (by omega),
      Int.sub_add_cancel]
  · have hfull : q = minExponent ∨ (fullSignificand : ℚ) ≤ w := by
      rcases hcanonical.full with hq | hm
      · exact .inl hq
      rcases hcanonical.le.eq_or_lt with hq | hq
      · exact .inl hq.symm
      rcases hm.eq_or_lt with rfl | hm
      · exact .inr (not_lt.mp fun hless => hshort ⟨⟨rfl, hq⟩, hless⟩)
      · have hm' : (fullSignificand : ℚ) + 1 ≤ m := by exact_mod_cast hm
        exact .inr (by linarith [below_le m q])
    have hodd (hm : m % 2 = 1) : 2 * m < 2 * w + 1 ∧ 2 * w < 2 * m + 1 := by
      have hbelow : below m q = 2 := if_neg fun hpower => by
        rw [hpower.1] at hm
        exact absurd hm (by decide)
      obtain ⟨hlow', hhigh'⟩ := hstrict hm
      rw [hw, ← mul_assoc, hbelow] at hlow'
      rw [hw, ← mul_assoc] at hhigh'
      replace hlow' := lt_of_mul_lt_mul_right hlow' hpow.le
      replace hhigh' := lt_of_mul_lt_mul_right hhigh' hpow.le
      push_cast at hlow'
      exact ⟨by linarith, by linarith⟩
    have hexponent := exponentOf_of_bounds hnum hden hw hcanonical.le (by linarith) hfull
    have hsignificand := significand_eq hden hw (by linarith [below_le m q]) (by linarith) hodd
    rw [ofQuotient_eq negative hnum hexponent hsignificand, if_neg hcanonical.lt.ne,
      if_neg (not_lt.mpr hcanonical.most)]

theorem canonical_zero : Canonical 0 minExponent :=
  ⟨by decide, le_refl _, .inl rfl, by decide⟩

/-- What a quotient rounds to is canonical, unless it is infinite. -/
theorem ofQuotient_canonical (negative : Bool) (hden : 0 < den) :
    ofQuotient negative num den = .infinite negative ∨
      ∃ m q, ofQuotient negative num den = .finite negative m q ∧ Canonical m q := by
  rcases Nat.eq_zero_or_pos num with rfl | hnum
  · exact .inr ⟨0, minExponent, rfl, canonical_zero⟩
  obtain ⟨g, hlow, hhigh⟩ := exists_exponent hnum hden
  have hexponent := exponentOf_eq hnum hden hlow hhigh
  generalize hq : max minExponent g = q at hexponent
  have hpow : (0 : ℚ) < 2 ^ q := by positivity
  obtain ⟨w, hw⟩ : ∃ w : ℚ, (num / den : ℚ) = w * 2 ^ q :=
    ⟨num / den / 2 ^ q, (div_mul_cancel₀ _ hpow.ne').symm⟩
  have hlt : w < 2 * fullSignificand := by
    have hmono : (2 : ℚ) ^ (53 + g) ≤ 2 ^ (53 + q) := zpow_le_zpow_right₀ (by norm_num) (by omega)
    have hvalue := lt_of_lt_of_le hhigh hmono
    rw [hw, zpow_add₀ (by norm_num)] at hvalue
    have hbound := lt_of_mul_lt_mul_right hvalue hpow.le
    rw [fullSignificand_eq]
    norm_num at hbound ⊢
    exact hbound
  have hpos : 0 < den * twoTo q.toNat := Nat.mul_pos hden (twoTo_pos _)
  generalize hm : roundQuotient (num * twoTo (-q).toNat) (den * twoTo q.toNat) = m
  have hle : m ≤ 2 * fullSignificand := by
    rw [← hm]
    refine roundQuotient_le hpos (not_le.mp fun hge => ?_)
    have hge' := (scaled_le_iff hden hw).mp hge
    push_cast at hge'
    linarith
  have hfull : q = minExponent ∨ fullSignificand ≤ m := by
    rcases le_total g minExponent with hg | hg
    · exact .inl (by omega)
    · refine .inr ?_
      rw [← hm]
      refine le_roundQuotient hpos ((scaled_le_iff hden hw).mpr ?_)
      obtain rfl : g = q := by omega
      rw [hw, zpow_add₀ (by norm_num)] at hlow
      have hbound := le_of_mul_le_mul_right hlow hpow
      rw [fullSignificand_eq]
      norm_num at hbound ⊢
      exact hbound
  rw [ofQuotient_eq negative hnum hexponent ((significand_scaled num den q).trans hm)]
  split_ifs with htop hmost hmost
  · exact .inl rfl
  · exact .inr ⟨_, _, rfl, by decide, by omega, .inr (le_refl _), by omega⟩
  · exact .inl rfl
  · exact .inr ⟨_, _, rfl, by omega, by omega, hfull, by omega⟩

end

end SqlAnalysis.Binary64

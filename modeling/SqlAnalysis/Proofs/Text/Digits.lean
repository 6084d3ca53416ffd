import Mathlib.Data.List.Induction
import Mathlib.Tactic.Ring
import SqlAnalysis.Proofs.Token.Scans

/-!
# Numbers written in digits

The digits of a number are read as that number again. Digits in front count for more
than all digits behind them together, so runs of one length are ordered as their numbers.
-/
namespace SqlAnalysis.Text

/-! ### Values -/

theorem digitsValue_append (cs ds : List Char) :
    digitsValue (cs ++ ds) = digitsValue cs * 10 ^ ds.length + digitsValue ds := by
  induction ds using List.reverseRecOn with
  | nil => simp [digitsValue]
  | append_singleton ds d ih =>
    unfold digitsValue at ih ⊢
    rw [← List.append_assoc, List.foldl_append, ih, List.foldl_append, List.length_append]
    simp only [List.foldl_cons, List.foldl_nil, List.length_singleton]
    ring

theorem digitsValue_singleton (c : Char) : digitsValue [c] = digitValue c := by
  simp [digitsValue]

theorem digitsValue_cons (c : Char) (ds : List Char) :
    digitsValue (c :: ds) = digitValue c * 10 ^ ds.length + digitsValue ds := by
  rw [← List.singleton_append, digitsValue_append, digitsValue_singleton]

theorem digitsValue_zeros (n : Nat) (ds : List Char) :
    digitsValue (List.replicate n '0' ++ ds) = digitsValue ds := by
  induction n with
  | zero => rfl
  | succ n ih => exact ih

theorem digitsValue_append_zeros (ds : List Char) (n : Nat) :
    digitsValue (ds ++ List.replicate n '0') = digitsValue ds * 10 ^ n := by
  have hzeros : digitsValue (List.replicate n '0') = 0 := by
    simpa [digitsValue] using digitsValue_zeros n []
  rw [digitsValue_append, hzeros, List.length_replicate, Nat.add_zero]

theorem digitsValue_eq (ds : List Char) : digitsValue ds = Nat.ofDigitChars 10 ds 0 := by
  rw [Nat.ofDigitChars_eq_foldl]
  rfl

theorem digits_toDigits (n : Nat) : Scan.Digits (Nat.toDigits 10 n) where
  ne_nil := Nat.toDigits_ne_nil
  all := by
    rw [List.all_eq_true]
    intro c hc
    exact Nat.isDigit_of_mem_toDigits (by decide) (by decide) hc

theorem digitsValue_toDigits (n : Nat) : digitsValue (Nat.toDigits 10 n) = n := by
  rw [digitsValue_eq, Nat.ofDigitChars_toDigits (by decide) (by decide)]

theorem natural?_of_digits {ds : List Char} (h : Scan.Digits ds) :
    natural? ds = some (digitsValue ds) := by
  rw [natural?, if_pos ⟨h.ne_nil, h.all⟩]

theorem natural?_toDigits (n : Nat) : natural? (Nat.toDigits 10 n) = some n := by
  rw [natural?_of_digits (digits_toDigits n), digitsValue_toDigits]

/-! ### Order -/

theorem toNat_of_isDigit {c : Char} (h : isDigit c) : 48 ≤ c.toNat ∧ c.toNat ≤ 57 := by
  rw [isDigit, Bool.and_eq_true, decide_eq_true_eq, decide_eq_true_eq, Char.le_def, Char.le_def,
    UInt32.le_iff_toNat_le, UInt32.le_iff_toNat_le] at h
  exact h

theorem digitValue_lt {c : Char} (h : isDigit c) : digitValue c < 10 := by
  have hc := toNat_of_isDigit h
  have hzero : '0'.toNat = 48 := rfl
  rw [digitValue]
  omega

theorem digitValue_lt_iff {c d : Char} (hc : isDigit c) (hd : isDigit d) :
    digitValue c < digitValue d ↔ c < d := by
  have hc := toNat_of_isDigit hc
  have hd := toNat_of_isDigit hd
  have hzero : '0'.toNat = 48 := rfl
  have hlt : c < d ↔ c.toNat < d.toNat := by rw [Char.lt_def, UInt32.lt_iff_toNat_lt]; rfl
  rw [digitValue, digitValue, hlt]
  omega

theorem digitValue_inj {c d : Char} (hc : isDigit c) (hd : isDigit d) :
    digitValue c = digitValue d ↔ c = d := by
  refine ⟨fun h => ?_, congrArg digitValue⟩
  have hc := toNat_of_isDigit hc
  have hd := toNat_of_isDigit hd
  have hzero : '0'.toNat = 48 := rfl
  rw [digitValue, digitValue] at h
  have hnat : c.toNat = d.toNat := by omega
  exact Char.ext (UInt32.toNat_inj.mp hnat)

theorem digitsValue_lt {ds : List Char} (h : ds.all isDigit) : digitsValue ds < 10 ^ ds.length := by
  induction ds with
  | nil => exact Nat.one_pos
  | cons d ds ih =>
    rw [List.all_cons, Bool.and_eq_true] at h
    have hd := digitValue_lt h.1
    have hds := ih h.2
    rw [digitsValue_cons, List.length_cons]
    calc digitValue d * 10 ^ ds.length + digitsValue ds
        < (digitValue d + 1) * 10 ^ ds.length := by rw [Nat.succ_mul]; omega
      _ ≤ 10 * 10 ^ ds.length := Nat.mul_le_mul_right _ hd
      _ = 10 ^ (ds.length + 1) := (Nat.pow_succ').symm

/-- A number that leads decides, and of equal ones the rest does. -/
theorem scaled_lt_iff {w a b m n : Nat} (hm : m < w) (hn : n < w) :
    a * w + m < b * w + n ↔ a < b ∨ a = b ∧ m < n := by
  rcases Nat.lt_trichotomy a b with h | rfl | h
  · have hstep : (a + 1) * w ≤ b * w := Nat.mul_le_mul_right w h
    rw [Nat.succ_mul] at hstep
    exact ⟨fun _ => .inl h, fun _ => by omega⟩
  · simp
  · have hstep : (b + 1) * w ≤ a * w := Nat.mul_le_mul_right w h
    rw [Nat.succ_mul] at hstep
    exact ⟨fun hlt => by omega, fun hor => by omega⟩

theorem digitsValue_lt_iff {cs ds : List Char} (hlength : cs.length = ds.length)
    (hc : cs.all isDigit) (hd : ds.all isDigit) : digitsValue cs < digitsValue ds ↔ cs < ds := by
  induction cs generalizing ds with
  | nil =>
    rw [List.eq_nil_of_length_eq_zero hlength.symm]
    simp
  | cons c cs ih =>
    obtain _ | ⟨d, ds⟩ := ds
    · cases hlength
    rw [List.all_cons, Bool.and_eq_true] at hc hd
    have hrest := Nat.succ.inj hlength
    have hleft := digitsValue_lt hc.2
    have hright := digitsValue_lt hd.2
    rw [hrest] at hleft
    rw [digitsValue_cons, digitsValue_cons, hrest, scaled_lt_iff hleft hright,
      List.cons_lt_cons_iff, ih hrest hc.2 hd.2, digitValue_lt_iff hc.1 hd.1,
      digitValue_inj hc.1 hd.1]

end SqlAnalysis.Text

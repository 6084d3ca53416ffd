import Mathlib.Algebra.Order.BigOperators.Group.Finset
import SqlAnalysis.Calendar
import SqlAnalysis.Proofs.Text.Digits

/-!
# The calendar as a count of days

The Gregorian calendar, by its rule for leap years and the lengths of its months, in which
every day has a number and every second of a day too. Of two days the earlier one has the
smaller number, and comparing numbers is comparing year, month and day in this order.
-/
namespace SqlAnalysis
namespace Calendar

/-! ### Years and months -/

/-- Every fourth year is a leap year, of the centuries only every fourth. -/
def IsLeap (year : Nat) : Prop :=
  4 ∣ year ∧ (100 ∣ year → 400 ∣ year)

instance (year : Nat) : Decidable (IsLeap year) :=
  inferInstanceAs (Decidable (_ ∧ (_ → _)))

theorem isLeapYear_iff (year : Nat) : isLeapYear year ↔ IsLeap year := by
  simp only [isLeapYear, IsLeap, Bool.or_eq_true, Bool.and_eq_true, beq_iff_eq, bne_iff_ne, ne_eq]
  omega

/-- The lengths of the months of a year in order. -/
def monthLengths (year : Nat) : List Nat :=
  [31, if IsLeap year then 29 else 28, 31, 30, 31, 30, 31, 31, 30, 31, 30, 31]

/-- The length of the month after so many others of its year. -/
def monthLength (year before : Nat) : Nat :=
  (monthLengths year).getD before 0

theorem daysInMonth_zero (year : Nat) : daysInMonth year 0 = 0 := rfl

theorem daysInMonth_succ (year before : Nat) :
    daysInMonth year (before + 1) = monthLength year before := by
  have hleap : (isLeapYear year = true) = IsLeap year := propext (isLeapYear_iff year)
  match before with
  | 1 => simp only [daysInMonth, monthLength, monthLengths, hleap, List.getD_cons_succ,
      List.getD_cons_zero]
  | 0 | 2 | 3 | 4 | 5 | 6 | 7 | 8 | 9 | 10 | 11 => rfl
  | _ + 12 => rfl

/-- The number of days of a year. -/
def yearLength (year : Nat) : Nat :=
  (monthLengths year).sum

theorem sum_monthLength (year : Nat) :
    ∑ before ∈ Finset.range 12, monthLength year before = yearLength year := by
  simp [Finset.sum_range_succ, monthLength, monthLengths, yearLength]
  omega

/-! ### Counting through spans of given lengths -/

section

variable {length : Nat → Nat} {m n j k : Nat}

/-- The days before a span and those in it up to a day are at most the days before any later
span. -/
theorem sum_add_le (h : m < n) (hj : j ≤ length m) :
    ∑ i ∈ Finset.range m, length i + j ≤ ∑ i ∈ Finset.range n, length i :=
  calc ∑ i ∈ Finset.range m, length i + j
      ≤ ∑ i ∈ Finset.range m, length i + length m := Nat.add_le_add_left hj _
    _ = ∑ i ∈ Finset.range (m + 1), length i := (Finset.sum_range_succ length m).symm
    _ ≤ ∑ i ∈ Finset.range n, length i :=
      Finset.sum_le_sum_of_subset (Finset.range_mono h)

theorem sum_add_lt_iff (hj : 1 ≤ j) (hjm : j ≤ length m) (hk : 1 ≤ k) (hkn : k ≤ length n) :
    ∑ i ∈ Finset.range m, length i + j < ∑ i ∈ Finset.range n, length i + k ↔
      m < n ∨ m = n ∧ j < k := by
  rcases Nat.lt_trichotomy m n with h | rfl | h
  · have hle := sum_add_le h hjm
    exact ⟨fun _ => .inl h, fun _ => by omega⟩
  · simp
  · have hle := sum_add_le h hkn
    exact ⟨fun hlt => by omega, fun hor => by omega⟩

end

end Calendar

/-! ### Days -/

namespace Date

open Calendar

variable {d e : Date}

/-- Whether the numbers name a day of the calendar: a month of the twelve and a day within it. -/
structure IsDay (d : Date) : Prop where
  month_pos : 1 ≤ d.month
  day_pos : 1 ≤ d.day
  day_le : ∃ length, (monthLengths d.year)[d.month - 1]? = some length ∧ d.day ≤ length

theorem exists?_iff : d.exists? ↔ d.IsDay := by
  rw [exists?, Bool.and_eq_true, decide_eq_true_eq, decide_eq_true_eq]
  obtain ⟨year, _ | before, day⟩ := d
  · simp only [daysInMonth_zero]
    exact ⟨fun h => by omega, fun h => absurd h.month_pos (Nat.not_succ_le_zero 0)⟩
  · simp only [daysInMonth_succ, monthLength, List.getD_eq_getElem?_getD]
    constructor
    · rintro ⟨hpos, hle⟩
      cases hmonth : (monthLengths year)[before]? with
      | none =>
        rw [hmonth, Option.getD_none] at hle
        omega
      | some length =>
        rw [hmonth, Option.getD_some] at hle
        exact ⟨Nat.succ_pos before, hpos, length, hmonth, hle⟩
    · rintro ⟨-, hpos, length, hmonth, hle⟩
      rw [show (monthLengths year)[before]? = some length from hmonth, Option.getD_some]
      exact ⟨hpos, hle⟩

theorem IsDay.day_le_monthLength (h : d.IsDay) : d.day ≤ monthLength d.year (d.month - 1) := by
  obtain ⟨length, hlength, hle⟩ := h.day_le
  rwa [monthLength, List.getD_eq_getElem?_getD, hlength, Option.getD_some]

theorem IsDay.month_le (h : d.IsDay) : d.month ≤ 12 := by
  obtain ⟨length, hlength, -⟩ := h.day_le
  have hlt := (List.getElem?_eq_some_iff.mp hlength).1
  simp only [monthLengths, List.length_cons, List.length_nil] at hlt
  omega

theorem IsDay.month_lt (h : d.IsDay) : d.month < 100 :=
  h.month_le.trans_lt (by decide)

theorem IsDay.day_lt (h : d.IsDay) : d.day < 100 := by
  obtain ⟨length, hlength, hle⟩ := h.day_le
  have hmem := List.mem_of_getElem? hlength
  have hshort : ∀ n ∈ monthLengths d.year, n ≤ 31 := by
    unfold monthLengths
    split <;> decide
  have := hshort length hmem
  omega

/-- The number of the day in its year, from one. -/
def dayOfYear (d : Date) : Nat :=
  ∑ before ∈ Finset.range (d.month - 1), monthLength d.year before + d.day

/-- The number of the day, counted from the first day of the year zero. -/
def dayNumber (d : Date) : Nat :=
  ∑ year ∈ Finset.range d.year, yearLength year + d.dayOfYear

theorem IsDay.dayOfYear_pos (h : d.IsDay) : 1 ≤ d.dayOfYear :=
  h.day_pos.trans (Nat.le_add_left _ _)

theorem IsDay.dayOfYear_le (h : d.IsDay) : d.dayOfYear ≤ yearLength d.year := by
  have hmonth := h.month_pos
  have htwelve := h.month_le
  rw [← sum_monthLength]
  exact sum_add_le (by omega) h.day_le_monthLength

theorem dayNumber_lt_iff (hd : d.IsDay) (he : e.IsDay) : d.dayNumber < e.dayNumber ↔
    d.year < e.year ∨ d.year = e.year ∧
      (d.month < e.month ∨ d.month = e.month ∧ d.day < e.day) := by
  have hmonth := hd.month_pos
  have hmonth' := he.month_pos
  rw [dayNumber, dayNumber, sum_add_lt_iff hd.dayOfYear_pos hd.dayOfYear_le he.dayOfYear_pos
    he.dayOfYear_le]
  refine or_congr_right (and_congr_right fun hyear => ?_)
  have hle := he.day_le_monthLength
  rw [← hyear] at hle
  rw [dayOfYear, dayOfYear, ← hyear, sum_add_lt_iff hd.day_pos hd.day_le_monthLength he.day_pos hle]
  omega

theorem dayNumber_inj (hd : d.IsDay) (he : e.IsDay) : d.dayNumber = e.dayNumber ↔ d = e := by
  refine ⟨fun h => ?_, fun h => h ▸ rfl⟩
  have hlt := (dayNumber_lt_iff hd he).not.mp (by omega)
  have hgt := (dayNumber_lt_iff he hd).not.mp (by omega)
  cases d
  cases e
  simp only [Date.mk.injEq] at hlt hgt ⊢
  omega

example : dayNumber ⟨1, 1, 1⟩ = 367 := by decide

end Date

/-! ### Times of day -/

namespace TimeOfDay

variable {t u : TimeOfDay}

/-- Whether the numbers name a second of a day. -/
structure IsTime (t : TimeOfDay) : Prop where
  hour_lt : t.hour < 24
  minute_lt : t.minute < 60
  second_lt : t.second < 60

theorem exists?_iff : t.exists? ↔ t.IsTime := by
  simp only [exists?, Bool.and_eq_true, decide_eq_true_eq]
  exact ⟨fun h => ⟨by omega, by omega, by omega⟩,
    fun ⟨hhour, hminute, hsecond⟩ => ⟨⟨by omega, by omega⟩, by omega⟩⟩

/-- The seconds of the day before this one. -/
def secondOfDay (t : TimeOfDay) : Nat :=
  (t.hour * 60 + t.minute) * 60 + t.second

theorem IsTime.secondOfDay_lt (h : t.IsTime) : t.secondOfDay < 86400 := by
  obtain ⟨hhour, hminute, hsecond⟩ := h
  rw [secondOfDay]
  omega

theorem secondOfDay_lt_iff (ht : t.IsTime) (hu : u.IsTime) : t.secondOfDay < u.secondOfDay ↔
    t.hour < u.hour ∨ t.hour = u.hour ∧
      (t.minute < u.minute ∨ t.minute = u.minute ∧ t.second < u.second) := by
  obtain ⟨hhour, hminute, hsecond⟩ := ht
  obtain ⟨hhour', hminute', hsecond'⟩ := hu
  rw [secondOfDay, secondOfDay, Text.scaled_lt_iff hsecond hsecond']
  omega

end TimeOfDay

namespace Moment

variable {m n : Moment}

/-- Whether the numbers name a second of a day of the calendar. -/
structure IsMoment (m : Moment) : Prop where
  date : m.date.IsDay
  time : m.time.IsTime

/-- The number of the second, counted from the beginning of the year zero. -/
def secondNumber (m : Moment) : Nat :=
  m.date.dayNumber * 86400 + m.time.secondOfDay

theorem secondNumber_lt_iff (hm : m.IsMoment) (hn : n.IsMoment) :
    m.secondNumber < n.secondNumber ↔ m.date.dayNumber < n.date.dayNumber ∨
      m.date = n.date ∧ m.time.secondOfDay < n.time.secondOfDay := by
  rw [secondNumber, secondNumber,
    Text.scaled_lt_iff hm.time.secondOfDay_lt hn.time.secondOfDay_lt,
    Date.dayNumber_inj hm.date hn.date]

end Moment
end SqlAnalysis

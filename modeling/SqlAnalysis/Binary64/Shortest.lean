import SqlAnalysis.Binary64.Basic

/-!
# The shortest decimal that reads back

Every decimal in a certain interval around a finite value rounds to that value.
Among the decimals of fewest digits in the interval the one nearest to the
value is chosen, the larger of two equally near ones. All arithmetic is exact.
-/
namespace SqlAnalysis.Binary64

/-- A positive decimal: `digits · 10 ^ exponent`. -/
structure Decimal where
  digits : Nat
  exponent : Int
deriving DecidableEq, Inhabited

/-- The decimals that round to a value, over a common denominator: those
between `low` and `high`, the ends included where `closed` says so. -/
structure Neighbourhood where
  low : Nat
  value : Nat
  high : Nat
  denominator : Nat
  closed : Bool

/-- The interval around `m · 2 ^ q`. Below a power of two the next value is
nearer, so the interval is shorter on that side. -/
def neighbourhood (m : Nat) (q : Int) : Neighbourhood :=
  let below := if m = fullSignificand ∧ minExponent < q then 1 else 2
  let up := twoTo q.toNat
  { low := (4 * m - below) * up
    value := 4 * m * up
    high := (4 * m + 2) * up
    denominator := 4 * twoTo (-q).toNat
    closed := m % 2 == 0 }

namespace Neighbourhood

/-- Whether `d · 10 ^ e` lies in the interval. -/
def holds (n : Neighbourhood) (d : Nat) (e : Int) : Bool :=
  let num := d * tenTo e.toNat * n.denominator
  let scale := tenTo (-e).toNat
  if n.closed then n.low * scale ≤ num && num ≤ n.high * scale
  else n.low * scale < num && num < n.high * scale

/-- The interval's value divided by `10 ^ e`, rounded down. -/
def floorAt (n : Neighbourhood) (e : Int) : Nat :=
  n.value * tenTo (-e).toNat / (n.denominator * tenTo e.toNat)

/-- Whether `d · 10 ^ e` is nearer to the value than `(d + 1) · 10 ^ e`. -/
def nearerBelow (n : Neighbourhood) (d : Nat) (e : Int) : Bool :=
  2 * n.value * tenTo (-e).toNat < (2 * d + 1) * (n.denominator * tenTo e.toNat)

/-- The best decimal of the interval with the given exponent, if it has one. -/
def onGrid? (n : Neighbourhood) (e : Int) : Option Decimal :=
  let d := n.floorAt e
  match n.holds d e, n.holds (d + 1) e with
  | true, true => some (if n.nearerBelow d e then ⟨d, e⟩ else ⟨d + 1, e⟩)
  | true, false => some ⟨d, e⟩
  | false, true => some ⟨d + 1, e⟩
  | false, false => none

/-- The first grid that meets the interval, from `e` downwards. -/
def search (n : Neighbourhood) : Nat → Int → Decimal
  | 0, e => ⟨n.floorAt e, e⟩
  | steps + 1, e => (n.onGrid? e).getD (search n steps (e - 1))

/-- An exponent of ten above the value's order of magnitude. -/
def topExponent (n : Neighbourhood) : Int :=
  (Nat.toDigits 10 n.value).length - (Nat.toDigits 10 n.denominator).length + 1

end Neighbourhood

/-- Takes the zeros off the end of the digits. -/
def Decimal.strip : Nat → Decimal → Decimal
  | 0, d => d
  | fuel + 1, d =>
    if d.digits ≠ 0 ∧ d.digits % 10 = 0 then
      Decimal.strip fuel ⟨d.digits / 10, d.exponent + 1⟩
    else
      d

/-- The shortest decimal for `m · 2 ^ q`, where `m` is positive. Seventeen
digits are always enough; the search has room for the digits by which its
first grid may overshoot. -/
def shortest (m : Nat) (q : Int) : Decimal :=
  let n := neighbourhood m q
  (n.search 20 n.topExponent).strip 20

end SqlAnalysis.Binary64

import SqlAnalysis.Text.Number

/-!
# Binary floating point of double width

A finite value is `significand · 2 ^ exponent` with a sign. Decimals are read
by rounding the exact quotient to the nearest value, ties to the even
significand; quotients that round beyond the largest value are infinite.
-/
namespace SqlAnalysis

/-- A value of the binary format with a 53-bit significand. -/
inductive Binary64 where
  | finite (negative : Bool) (significand : Nat) (exponent : Int)
  | infinite (negative : Bool)
  | nan
deriving DecidableEq, Inhabited

namespace Binary64

/-- The exponent of the values around zero. -/
def minExponent : Int := -1074

/-- The exponent of the largest values. -/
def maxExponent : Int := 971

/-- A power of two. -/
def twoTo (n : Nat) : Nat := Nat.pow 2 n

/-- A power of ten. -/
def tenTo (n : Nat) : Nat := Nat.pow 10 n

/-- Full significands lie between this bound and its double. -/
def fullSignificand : Nat := twoTo 52

def zero (negative : Bool) : Binary64 :=
  .finite negative 0 minExponent

/-- The value with the other sign. -/
def negate : Binary64 → Binary64
  | .finite negative m q => .finite (!negative) m q
  | .infinite negative => .infinite (!negative)
  | .nan => .nan

@[simp] theorem negate_negate (x : Binary64) : x.negate.negate = x := by
  cases x <;> simp [negate]

/-- The integer nearest to `num / den`, the even one of two. -/
def roundQuotient (num den : Nat) : Nat :=
  let quotient := num / den
  let twice := 2 * (num % den)
  if twice < den then quotient
  else if den < twice then quotient + 1
  else quotient + quotient % 2

/-- The exponent under which `num / den` has a full significand, or the least
exponent if its significand would be less than full under that one. -/
def exponentOf (num den : Nat) : Int :=
  let guess : Int := (num.log2 : Int) - den.log2 - 52
  let fits : Bool :=
    if 0 ≤ guess then fullSignificand * (den * twoTo guess.toNat) ≤ num
    else fullSignificand * den ≤ num * twoTo (-guess).toNat
  max minExponent (if fits then guess else guess - 1)

/-- The value nearest to `num / den`. -/
def ofQuotient (negative : Bool) (num den : Nat) : Binary64 :=
  if num = 0 then
    zero negative
  else
    let q := exponentOf num den
    let m :=
      if 0 ≤ q then roundQuotient num (den * twoTo q.toNat)
      else roundQuotient (num * twoTo (-q).toNat) den
    let (m, q) := if m = 2 * fullSignificand then (fullSignificand, q + 1) else (m, q)
    if maxExponent < q then .infinite negative else .finite negative m q

/-- The value nearest to `digits · 10 ^ exponent`. Decimals whose order of
magnitude is out of all range are settled without forming the power. -/
def ofDecimal (negative : Bool) (digits : Nat) (exponent : Int) : Binary64 :=
  if digits = 0 then
    zero negative
  else
    let magnitude : Int := (Nat.toDigits 10 digits).length + exponent
    if 400 < magnitude then .infinite negative
    else if magnitude < -400 then zero negative
    else if 0 ≤ exponent then ofQuotient negative (digits * tenTo exponent.toNat) 1
    else ofQuotient negative digits (tenTo (-exponent).toNat)

/-- Reads an exponent part: the mark, a sign and at least one digit. -/
def exponentPart? : List Char → Option Int
  | [] => some 0
  | mark :: cs =>
    if mark = 'e' ∨ mark = 'E' then
      match cs with
      | '-' :: ds => (Text.natural? ds).map fun n => -(n : Int)
      | '+' :: ds => (Text.natural? ds).map fun n => (n : Int)
      | ds => (Text.natural? ds).map fun n => (n : Int)
    else
      none

/-- Reads digits with a point among them or not, and an exponent part. -/
def unsigned? (negative : Bool) (cs : List Char) : Option Binary64 :=
  let whole := cs.takeWhile Text.isDigit
  let rest := cs.dropWhile Text.isDigit
  let (fraction, rest) := match rest with
    | '.' :: ds => (ds.takeWhile Text.isDigit, ds.dropWhile Text.isDigit)
    | _ => ([], rest)
  if whole = [] ∧ fraction = [] then
    none
  else
    (exponentPart? rest).map fun e =>
      ofDecimal negative (Text.digitsValue (whole ++ fraction)) (e - fraction.length)

/-- Reads a decimal, or one of the words for infinity and for no number. -/
def parse? (text : String) : Option Binary64 :=
  let (negative, cs) := match text.toList with
    | '-' :: cs => (true, cs)
    | '+' :: cs => (false, cs)
    | cs => (false, cs)
  let word := Text.foldCase (String.ofList cs)
  if word = "inf" ∨ word = "infinity" then some (.infinite negative)
  else if word = "nan" then some .nan
  else unsigned? negative cs

end Binary64
end SqlAnalysis

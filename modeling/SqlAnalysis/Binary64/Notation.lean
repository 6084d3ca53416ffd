import SqlAnalysis.Binary64.Shortest

/-!
# Decimal notation of binary values

The text keeps a point or an exponent, so that it never reads as an integer.
-/
namespace SqlAnalysis.Binary64

/-- A positive decimal written out: positional from `10 ^ -4` up to, and
without, `10 ^ 16`, with one digit at least after the point; otherwise one
digit before the point and an exponent without a plus sign. -/
def Decimal.render (d : Decimal) : String :=
  let ds := Nat.toDigits 10 d.digits
  let point : Int := ds.length + d.exponent
  if -4 < point ∧ point ≤ 16 then
    if point ≤ 0 then
      String.ofList ('0' :: '.' :: (List.replicate (-point).toNat '0' ++ ds))
    else if ds.length ≤ point.toNat then
      String.ofList (ds ++ List.replicate (point.toNat - ds.length) '0' ++ ['.', '0'])
    else
      String.ofList (ds.take point.toNat ++ '.' :: ds.drop point.toNat)
  else
    let mantissa := match ds with
      | first :: second :: rest => first :: '.' :: second :: rest
      | short => short
    String.ofList mantissa ++ "e" ++ toString (point - 1)

/-- The text of a value. -/
def render : Binary64 → String
  | .nan => "NaN"
  | .infinite negative => if negative then "-inf" else "inf"
  | .finite negative m q =>
    let magnitude := if m = 0 then "0.0" else (shortest m q).render
    if negative then "-" ++ magnitude else magnitude

end SqlAnalysis.Binary64

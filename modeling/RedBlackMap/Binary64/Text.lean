import RedBlackMap.Binary64.Shortest

/-!
# The text of a number

The shortest digits, with a point among them for numbers of a common size and with an
exponent behind them for the others.
-/
namespace RedBlackMap.Binary64

def positionalFrom : Int := -4
def positionalBelow : Int := 16

/-- Digits with a point before the digit at the given position. An integer keeps one zero
behind its point. -/
def positional (ds : List Char) (point : Int) : List Char :=
  if point ≤ 0 then '0' :: '.' :: List.replicate (-point).toNat '0' ++ ds
  else
    let n := point.toNat
    let whole := ds.take n ++ List.replicate (n - ds.length) '0'
    let rest := ds.drop n
    whole ++ '.' :: if rest.isEmpty then ['0'] else rest

/-- One digit before the point, the others behind it, and the exponent of the first digit. -/
def scientific (ds : List Char) (exponent : Int) : List Char :=
  ds.take 1 ++ (if ds.length ≤ 1 then [] else '.' :: ds.drop 1) ++ 'e' :: (toString exponent).toList

def Decimal.text (d : Decimal) : List Char :=
  let ds := Nat.toDigits 10 d.digits
  let leading := d.exponent + ds.length - 1
  if positionalFrom ≤ leading ∧ leading < positionalBelow then positional ds (leading + 1)
  else scientific ds leading

def text (x : Binary64) : String :=
  if x.isNaN then "NaN"
  else
    let body :=
      if x.isInfinite then "inf".toList
      else if x.magnitude = 0 then "0.0".toList
      else x.shortest.text
    String.ofList (if x.isNegative then '-' :: body else body)

end RedBlackMap.Binary64

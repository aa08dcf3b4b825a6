import RedBlackMap.Binary64.Basic

/-!
# Shortest decimals

The decimal with the fewest digits among those that round to a given number, and of
these the nearest. A finite number is `m * 2 ^ q`, and the reals that round to it make
up an interval, whose ends belong to it if `m` is even. All arithmetic is exact.
-/
namespace RedBlackMap.Binary64

structure Decimal where
  digits : Nat
  exponent : Int
  deriving DecidableEq, Repr

/-- The reals that round to a number, in units of `1 / den`: the number itself at `mid`,
the ends of the interval at `low` and `high`, and whether the ends belong to it. -/
structure Interval where
  low : Nat
  mid : Nat
  high : Nat
  den : Nat
  closed : Bool
  deriving Repr

/-- The significand `m` and the exponent `q` of a finite number `m * 2 ^ q`, without its sign. -/
def parts (x : Binary64) : Nat × Int :=
  let field : Nat := x.magnitude / Nat.pow 2 52
  let fraction : Nat := x.magnitude % Nat.pow 2 52
  if field = 0 then (fraction, -1074) else (Nat.pow 2 52 + fraction, (field : Int) - 1075)

/-- The interval of a finite number. A number whose neighbour below has the next smaller
exponent is half as far from it as from the one above. -/
def interval (x : Binary64) : Interval :=
  let (m, q) := x.parts
  let closer := x.magnitude % Nat.pow 2 52 = 0 ∧ Nat.pow 2 52 < x.magnitude
  let scale := Nat.pow 2 q.toNat
  { low := (4 * m - if closer then 1 else 2) * scale
    mid := 4 * m * scale
    high := (4 * m + 2) * scale
    den := 4 * Nat.pow 2 (-q).toNat
    closed := m % 2 = 0 }

namespace Interval

def holds (i : Interval) (n d : Nat) : Bool :=
  if i.closed then i.low * d ≤ n ∧ n ≤ i.high * d else i.low * d < n ∧ n < i.high * d

def magnitudeTen (i : Interval) : Int :=
  if i.den ≤ i.mid then (Nat.toDigits 10 (i.mid / i.den)).length
  else 1 - (Nat.toDigits 10 ((i.den - 1) / i.mid)).length

/-- The nearer one of the number's two neighbours among the multiples of `10 ^ k` that lie in
the interval, if any does. Of two that are equally near it is the greater one. -/
def onGrid (i : Interval) (k : Int) : Option Decimal :=
  let unit := Nat.pow 10 k.toNat * i.den
  let d := Nat.pow 10 (-k).toNat
  let below := i.mid * d / unit
  let rest := i.mid * d % unit
  let above := below + 1
  let downHolds := i.holds (below * unit) d
  let upHolds := i.holds (above * unit) d
  if upHolds ∧ (!downHolds ∨ unit ≤ 2 * rest) then some ⟨above, k⟩
  else if downHolds then some ⟨below, k⟩
  else none

def shortest (i : Interval) : Decimal :=
  ((List.range 18).findSome? fun n : Nat => i.onGrid (i.magnitudeTen - n)).getD ⟨0, 0⟩

end Interval

def shortest (x : Binary64) : Decimal := x.interval.shortest

end RedBlackMap.Binary64

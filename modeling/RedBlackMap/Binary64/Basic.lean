import RedBlackMap.Order.Comparator

/-!
# Binary floating point numbers

Numbers of 64 bits: a sign, eleven bits of exponent and fifty-two bits of fraction.
They are compared in the usual way: the two zeros are equal, and what is not a number
cannot be compared.
-/
namespace RedBlackMap

structure Binary64 where
  bits : UInt64
  deriving DecidableEq, Repr

namespace Binary64

def isNegative (x : Binary64) : Bool := Nat.pow 2 63 ≤ x.bits.toNat

def magnitude (x : Binary64) : Nat := x.bits.toNat % Nat.pow 2 63

/-- The magnitude of the infinite numbers; that of what is not a number is greater. -/
def infiniteMagnitude : Nat := 2047 * Nat.pow 2 52

def isNaN (x : Binary64) : Bool := infiniteMagnitude < x.magnitude

def isInfinite (x : Binary64) : Bool := x.magnitude == infiniteMagnitude

def rank (x : Binary64) : Int := if x.isNegative then -x.magnitude else x.magnitude

/-- The usual order, which has no answer for what is not a number. -/
def compare? : PartialComparator Binary64 := fun x y =>
  if x.isNaN || y.isNaN then none else some (compare x.rank y.rank)

def equal (x y : Binary64) : Bool := compare? x y == some .eq

def less (x y : Binary64) : Bool := compare? x y == some .lt

/-- The quotient by a power of two, rounded to nearest, a half to the even neighbour. -/
def roundShift (n shift : Nat) : Nat :=
  let unit := Nat.pow 2 shift
  let quotient := n / unit
  let rest := 2 * (n % unit)
  if unit < rest ∨ (unit = rest ∧ quotient % 2 = 1) then quotient + 1 else quotient

/-- The magnitude of a natural number. A significand that rounds up to the next power of
two carries into the exponent. -/
def magnitudeOfNat (n : Nat) : Nat :=
  if n = 0 then 0
  else
    let log := n.log2
    if 1024 ≤ log then infiniteMagnitude
    else
      let significand := if log ≤ 52 then n * Nat.pow 2 (52 - log) else roundShift n (log - 52)
      (log + 1022) * Nat.pow 2 52 + significand

def ofInt (n : Int) : Binary64 :=
  ⟨UInt64.ofNat ((if n < 0 then Nat.pow 2 63 else 0) + magnitudeOfNat n.natAbs)⟩

end Binary64

end RedBlackMap

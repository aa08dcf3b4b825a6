/-!
# Comparators

A map orders its keys by a comparator given when the map is made. A comparator
is any function; the laws that make it an order are in `Order.Laws`. Here are
comparators for the common kinds of keys and the ways to build one from another.
-/
namespace RedBlackMap
universe u v

abbrev Comparator (κ : Type u) := κ → κ → Ordering

/-- How a query stands to each stored key. The query need not be a key itself. -/
abbrev Query (κ : Type u) := κ → Ordering

/-- How the first value stands to the second, or `none` if they cannot be compared. -/
abbrev PartialComparator (κ : Type u) := κ → κ → Option Ordering

namespace Comparator
variable {κ : Type u} {μ : Type v}

def natural [Ord κ] : Comparator κ := compare

def reverse (cmp : Comparator κ) : Comparator κ := fun a b => cmp b a

def on (cmp : Comparator μ) (f : κ → μ) : Comparator κ := fun a b => cmp (f a) (f b)

def lex (first : Comparator κ) (second : Comparator μ) : Comparator (κ × μ) :=
  fun a b => (first a.1 b.1).then (second a.2 b.2)

/-- The order of a "less than" predicate, which is asked about `a, b` before `b, a`. -/
def ofLess (less : κ → κ → Bool) : Comparator κ :=
  fun a b => if less a b then .lt else if less b a then .gt else .eq

/-- Values that cannot be compared count as equal. -/
def ofPartial (cmp? : PartialComparator κ) : Comparator κ :=
  fun a b => (cmp? a b).getD .eq

def isLt (cmp : Comparator κ) (a b : κ) : Bool := cmp a b == .lt
def isEq (cmp : Comparator κ) (a b : κ) : Bool := cmp a b == .eq

def pairs : Comparator (Int × Int) := lex natural natural

def byRemainder (m : Int) : Comparator Int := ofLess fun a b => a % m < b % m

end Comparator

namespace PartialComparator
variable {κ : Type u}

def total (cmp : Comparator κ) : PartialComparator κ := fun a b => some (cmp a b)

/-- The first two elements that are not equal decide, or leave the lists without an
answer; of two lists that agree as far as they go the shorter is less. -/
def lists (cmp? : PartialComparator κ) : PartialComparator (List κ)
  | [], [] => some .eq
  | [], _ :: _ => some .lt
  | _ :: _, [] => some .gt
  | a :: as, b :: bs =>
    match cmp? a b with
    | some .eq => lists cmp? as bs
    | decided => decided

end PartialComparator

end RedBlackMap

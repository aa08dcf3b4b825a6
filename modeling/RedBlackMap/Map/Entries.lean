import RedBlackMap.Order.Comparator

/-!
# Ascending lists of entries

The plain view of a map: its entries in a list with ascending keys, and the operations
of a map as they act on the list.
-/
namespace RedBlackMap.Entries
universe u v
variable {κ : Type u} {ν : Type v}

def find? (cmp : Comparator κ) (key : κ) (es : List (κ × ν)) : Option (κ × ν) :=
  es.find? fun e => cmp.isEq key e.1

/-- Adds an entry at its place. An equal key stays and takes the new value. -/
def insert (cmp : Comparator κ) (key : κ) (value : ν) : List (κ × ν) → List (κ × ν)
  | [] => [(key, value)]
  | e :: es =>
    match cmp key e.1 with
    | .lt => (key, value) :: e :: es
    | .eq => (e.1, value) :: es
    | .gt => e :: insert cmp key value es

def erase (cmp : Comparator κ) (key : κ) (es : List (κ × ν)) : List (κ × ν) :=
  es.eraseP fun e => cmp.isEq key e.1

def replace (cmp : Comparator κ) (key : κ) (value : ν) (es : List (κ × ν)) : List (κ × ν) :=
  es.map fun e => if cmp.isEq key e.1 then (e.1, value) else e

end RedBlackMap.Entries

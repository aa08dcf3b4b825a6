import RedBlackMap.Tree.Cursor
import RedBlackMap.Tree.Insertion
import RedBlackMap.Tree.Removal

/-!
# Ordered maps

A map is a coloured search tree with a count of its entries. Its comparator is part
of its type. Two keys are the same key if the comparator says that they are equal,
and the key that was stored first stays. The operations promise nothing about order
when the comparator is not a total preorder, but they stay defined.
-/
namespace RedBlackMap
universe u v w

/-- A tree with the count of the entries that were added and not removed. -/
structure Map (κ : Type u) (ν : Type v) (cmp : Comparator κ) where
  root : Tree κ ν
  size : Nat

inductive LookupError
  | keyNotFound
  deriving DecidableEq, Repr

def LookupError.message : LookupError → String
  | .keyNotFound => "key not found"

namespace Map
variable {κ : Type u} {ν : Type v} {σ : Type w} {cmp cmp' : Comparator κ}

def empty : Map κ ν cmp := ⟨.nil, 0⟩

instance : EmptyCollection (Map κ ν cmp) := ⟨empty⟩

/-- Looks at the tree and not at the count. -/
def isEmpty (m : Map κ ν cmp) : Bool := m.root.isEmpty

def clear (_ : Map κ ν cmp) : Map κ ν cmp := ∅

def entryAt? (m : Map κ ν cmp) (q : Query κ) : Option (κ × ν) := m.root.find? q

def valueAt? (m : Map κ ν cmp) (q : Query κ) : Option ν := (m.entryAt? q).map (·.2)

def containsAt (m : Map κ ν cmp) (q : Query κ) : Bool := (m.valueAt? q).isSome

def getAt (m : Map κ ν cmp) (q : Query κ) : Except LookupError ν :=
  match m.valueAt? q with
  | some value => .ok value
  | none => .error .keyNotFound

/-- The value that a query finds, and the map with any other value in its place. -/
def slotAt? (m : Map κ ν cmp) (q : Query κ) : Option (ν × (ν → Map κ ν cmp)) :=
  (m.root.slot? q).map fun (e, put) => (e.2, fun value => { m with root := put value })

def modifyAt (m : Map κ ν cmp) (q : Query κ) (f : ν → ν) : Map κ ν cmp :=
  { m with root := m.root.modify q f }

def removeAt (m : Map κ ν cmp) (q : Query κ) : Option (κ × ν) × Map κ ν cmp :=
  let (removed, root) := m.root.remove q
  (removed, ⟨root, if removed.isSome then m.size - 1 else m.size⟩)

/-- The count falls where an entry is removed, and nowhere below zero. -/
theorem size_removeAt (m : Map κ ν cmp) (q : Query κ) :
    (m.removeAt q).2.size = m.size - (m.removeAt q).1.isSome.toNat := by
  change (if (m.removeAt q).1.isSome then m.size - 1 else m.size) = _
  cases (m.removeAt q).1 <;> rfl

def find? (m : Map κ ν cmp) (key : κ) : Option ν := m.valueAt? (cmp key)

def contains (m : Map κ ν cmp) (key : κ) : Bool := (m.find? key).isSome

def get (m : Map κ ν cmp) (key : κ) : Except LookupError ν :=
  match m.find? key with
  | some value => .ok value
  | none => .error .keyNotFound

theorem contains_eq (m : Map κ ν cmp) (key : κ) : m.contains key = m.containsAt (cmp key) := rfl

theorem get_eq (m : Map κ ν cmp) (key : κ) : m.get key = m.getAt (cmp key) := rfl

def modify (m : Map κ ν cmp) (key : κ) (f : ν → ν) : Map κ ν cmp := m.modifyAt (cmp key) f

/-- Stores a value under a key that is present. The answer holds the value from before. -/
def replace (m : Map κ ν cmp) (key : κ) (value : ν) : Option ν × Map κ ν cmp :=
  (m.find? key, m.modify key fun _ => value)

/-- Stores a value under a key. The answer says whether the key is new. -/
def insert (m : Map κ ν cmp) (key : κ) (value : ν) : Bool × Map κ ν cmp :=
  let (added, root) := m.root.insert cmp key value
  (added, ⟨root, if added then m.size + 1 else m.size⟩)

theorem size_insert (m : Map κ ν cmp) (key : κ) (value : ν) :
    (m.insert key value).2.size = m.size + (m.insert key value).1.toNat := by
  change (if (m.insert key value).1 then m.size + 1 else m.size) = _
  cases (m.insert key value).1 <;> rfl

/-- Removes a key and answers with the entry as it was stored. -/
def remove (m : Map κ ν cmp) (key : κ) : Option (κ × ν) × Map κ ν cmp := m.removeAt (cmp key)

def delete (m : Map κ ν cmp) (key : κ) : Bool × Map κ ν cmp :=
  let (removed, rest) := m.remove key
  (removed.isSome, rest)

def min? (m : Map κ ν cmp) : Option (κ × ν) := m.root.min?

def max? (m : Map κ ν cmp) : Option (κ × ν) := m.root.max?

def cursor (m : Map κ ν cmp) (a : Access) : Cursor κ ν := .ofTree a m.root m.size

def toList (m : Map κ ν cmp) : List (κ × ν) := m.root.toList

def foldl (f : σ → κ → ν → σ) (s : σ) (m : Map κ ν cmp) : σ := m.root.foldl f s

def insertMany (m : Map κ ν cmp) (es : List (κ × ν)) : Map κ ν cmp :=
  es.foldl (fun m e => (m.insert e.1 e.2).2) m

def ofList (cmp : Comparator κ) (es : List (κ × ν)) : Map κ ν cmp := (∅ : Map κ ν cmp).insertMany es

/-- Whether two maps hold equal entries, side by side in order. The keys are compared as
the left map compares them, and the values by `same`. -/
def equal (same : ν → ν → Bool) (a : Map κ ν cmp) (b : Map κ ν cmp') : Bool :=
  a.size == b.size &&
    ((a.cursor .shared).toList.zip (b.cursor .shared).toList).all fun (l, r) =>
      cmp.isEq l.1 r.1 && same l.2 r.2

end Map

end RedBlackMap

import RedBlackMap.Order.Comparator

/-!
# Coloured search trees

A tree holds its entries in order, and each node has the colour of the link
that leads to it. The type promises neither order nor balance. The view of a
tree is `toList`, its entries from left to right.
-/
namespace RedBlackMap
universe u v w

/-- The colour of the link that leads to a node. -/
inductive Color
  | red
  | black
  deriving DecidableEq, Repr

def Color.flip : Color → Color
  | .red => .black
  | .black => .red

@[simp] theorem Color.flip_flip (c : Color) : c.flip.flip = c := by cases c <;> rfl

/-- A binary tree of entries with a colour at each node. -/
inductive Tree (κ : Type u) (ν : Type v)
  | nil
  | node (color : Color) (left : Tree κ ν) (key : κ) (value : ν) (right : Tree κ ν)
  deriving DecidableEq, Repr

namespace Tree
variable {κ : Type u} {ν : Type v} {σ : Type w}

def isEmpty : Tree κ ν → Bool
  | nil => true
  | node .. => false

/-- The empty tree is not red. -/
def isRed : Tree κ ν → Bool
  | node .red .. => true
  | _ => false

def left : Tree κ ν → Tree κ ν
  | nil => nil
  | node _ l _ _ _ => l

def flipTop : Tree κ ν → Tree κ ν
  | nil => nil
  | node c l k v r => node c.flip l k v r

def blacken : Tree κ ν → Tree κ ν
  | nil => nil
  | node _ l k v r => node .black l k v r

def toList : Tree κ ν → List (κ × ν)
  | nil => []
  | node _ l k v r => l.toList ++ (k, v) :: r.toList

def size : Tree κ ν → Nat
  | nil => 0
  | node _ l _ _ r => l.size + 1 + r.size

/-- The number of nodes on the longest path from the top. -/
def height : Tree κ ν → Nat
  | nil => 0
  | node _ l _ _ r => max l.height r.height + 1

def min? : Tree κ ν → Option (κ × ν)
  | nil => none
  | node _ nil k v _ => some (k, v)
  | node _ l@(node ..) _ _ _ => l.min?

def max? : Tree κ ν → Option (κ × ν)
  | nil => none
  | node _ _ k v nil => some (k, v)
  | node _ _ _ _ r@(node ..) => r.max?

/-- The entry where the search for a query ends, if its key is equal to the query. -/
def find? (q : Query κ) : Tree κ ν → Option (κ × ν)
  | nil => none
  | node _ l k v r =>
    match q k with
    | .lt => l.find? q
    | .gt => r.find? q
    | .eq => some (k, v)

def modify (q : Query κ) (f : ν → ν) : Tree κ ν → Tree κ ν
  | nil => nil
  | node c l k v r =>
    match q k with
    | .lt => node c (l.modify q f) k v r
    | .gt => node c l k v (r.modify q f)
    | .eq => node c l k (f v) r

/-- The entry that `find?` reaches, and the tree with any other value in its place. -/
def slot? (q : Query κ) : Tree κ ν → Option ((κ × ν) × (ν → Tree κ ν))
  | nil => none
  | node c l k v r =>
    match q k with
    | .lt => (l.slot? q).map fun (e, put) => (e, fun value => node c (put value) k v r)
    | .gt => (r.slot? q).map fun (e, put) => (e, fun value => node c l k v (put value))
    | .eq => some ((k, v), fun value => node c l k value r)

def foldl (f : σ → κ → ν → σ) (s : σ) : Tree κ ν → σ
  | nil => s
  | node _ l k v r => r.foldl f (f (l.foldl f s) k v)

@[simp] theorem size_flipTop (t : Tree κ ν) : t.flipTop.size = t.size := by
  cases t <;> rfl

@[simp] theorem toList_flipTop (t : Tree κ ν) : t.flipTop.toList = t.toList := by
  cases t <;> rfl

@[simp] theorem toList_blacken (t : Tree κ ν) : t.blacken.toList = t.toList := by
  cases t <;> rfl

theorem length_toList (t : Tree κ ν) : t.toList.length = t.size := by
  induction t with
  | nil => rfl
  | node c l k v r ihl ihr => simp [toList, size, ihl, ihr]; omega

theorem foldl_eq (f : σ → κ → ν → σ) (s : σ) (t : Tree κ ν) :
    t.foldl f s = t.toList.foldl (fun s e => f s e.1 e.2) s := by
  induction t generalizing s with
  | nil => rfl
  | node c l k v r ihl ihr => simp [foldl, toList, ihl, ihr]

end Tree

/-- A node in hand, apart from the place where it belongs. -/
structure Node (κ : Type u) (ν : Type v) where
  color : Color
  left : Tree κ ν
  key : κ
  value : ν
  right : Tree κ ν
  deriving DecidableEq

namespace Node
variable {κ : Type u} {ν : Type v}

def entry (n : Node κ ν) : κ × ν := (n.key, n.value)

def toTree (n : Node κ ν) : Tree κ ν := .node n.color n.left n.key n.value n.right

def size (n : Node κ ν) : Nat := n.left.size + 1 + n.right.size

def toList (n : Node κ ν) : List (κ × ν) := n.left.toList ++ n.entry :: n.right.toList

theorem size_left_lt (n : Node κ ν) : n.left.size < n.size := by
  simp only [size]; omega

theorem size_right_lt (n : Node κ ν) : n.right.size < n.size := by
  simp only [size]; omega

end Node

end RedBlackMap

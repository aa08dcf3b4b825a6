import RedBlackMap.Tree.Basic

/-!
# Invariants of trees

The rules of colour, of balance and of order for a left-leaning red-black tree. They
are independent of each other, so that a subtree under repair can be said to keep some
of them.
-/
namespace RedBlackMap.Tree
universe u v
variable {κ : Type u} {ν : Type v}

/-- No right link is red, and no red node has a red child. -/
def LeansLeft : Tree κ ν → Prop
  | nil => True
  | node c l _ _ r =>
    r.isRed = false ∧ (c = .red → l.isRed = false) ∧ l.LeansLeft ∧ r.LeansLeft

/-- Every path from the top to an empty tree crosses `b` black nodes. -/
inductive BlackHeight : Tree κ ν → Nat → Prop
  | nil : BlackHeight nil 0
  | red {l r : Tree κ ν} {b : Nat} (k : κ) (v : ν) :
    BlackHeight l b → BlackHeight r b → BlackHeight (node .red l k v r) b
  | black {l r : Tree κ ν} {b : Nat} (k : κ) (v : ν) :
    BlackHeight l b → BlackHeight r b → BlackHeight (node .black l k v r) (b + 1)

def Ascending (cmp : Comparator κ) (t : Tree κ ν) : Prop :=
  t.toList.Pairwise fun a b => cmp a.1 b.1 = .lt

/-- A left-leaning red-black tree with a black top and black height `b`. -/
structure Balanced (t : Tree κ ν) (b : Nat) : Prop where
  isRed_eq_false : t.isRed = false
  leansLeft : t.LeansLeft
  blackHeight : t.BlackHeight b

end RedBlackMap.Tree

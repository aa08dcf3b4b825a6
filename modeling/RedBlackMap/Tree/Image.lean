import RedBlackMap.Tree.Basic

/-!
# Images of trees

A tree with its keys and values replaced by their images, and its shape and colours as
they are.
-/
namespace RedBlackMap
universe u v u' v'
variable {κ : Type u} {ν : Type v} {κ' : Type u'} {ν' : Type v'}

/-- Puts `f k` in the place of each key `k` and `g v` in the place of each value `v`. -/
def Tree.image (f : κ → κ') (g : ν → ν') : Tree κ ν → Tree κ' ν'
  | nil => nil
  | node c l k v r => node c (l.image f g) (f k) (g v) (r.image f g)

def Node.image (f : κ → κ') (g : ν → ν') (n : Node κ ν) : Node κ' ν' :=
  ⟨n.color, n.left.image f g, f n.key, g n.value, n.right.image f g⟩

theorem Tree.toList_image (f : κ → κ') (g : ν → ν') (t : Tree κ ν) :
    (t.image f g).toList = t.toList.map (Prod.map f g) := by
  induction t with
  | nil => rfl
  | node c l k v r ihl ihr => simp [image, toList, ihl, ihr]

end RedBlackMap

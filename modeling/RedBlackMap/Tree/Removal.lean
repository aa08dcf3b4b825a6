import RedBlackMap.Tree.Rotation

/-!
# Removal

The search for a query carries a red link down with it, so that the node which is
taken out at the end leaves no gap in the black height; links are set right on the
way up. An entry inside the tree is replaced by its successor. The tree may change
its shape even if no key is equal to the query.
-/
namespace RedBlackMap.Tree
universe u v
variable {κ : Type u} {ν : Type v}

/-- The leftmost entry and the tree without it, or `none` for the empty tree. -/
def popMin? : Tree κ ν → Option ((κ × ν) × Tree κ ν)
  | nil => none
  | node c l k v r =>
    if l.isEmpty then
      some ((k, v), r)
    else
      let n := (⟨c, l, k, v, r⟩ : Node κ ν).readyLeft
      (popMin? n.left).map fun (e, rest) => (e, { n with left := rest }.repair.toTree)
termination_by t => t.size
decreasing_by
  have h := (⟨c, l, k, v, r⟩ : Node κ ν).readyLeft.size_left_lt
  rwa [Node.size_readyLeft] at h

def takeTop (n : Node κ ν) : Option (κ × ν) × Tree κ ν :=
  match n.right.popMin? with
  | some ((k, v), rest) =>
    (some n.entry, { n with key := k, value := v, right := rest }.repair.toTree)
  | none => (none, n.repair.toTree)

/-- Removes below a link whose colour the caller looks after. -/
def removeBelow (q : Query κ) : Tree κ ν → Option (κ × ν) × Tree κ ν
  | nil => (none, nil)
  | node c l k v r =>
    if q k = .lt then
      if l.isEmpty then
        (none, (⟨c, l, k, v, r⟩ : Node κ ν).repair.toTree)
      else
        let n := (⟨c, l, k, v, r⟩ : Node κ ν).readyLeft
        let (removed, rest) := removeBelow q n.left
        (removed, { n with left := rest }.repair.toTree)
    else
      let n := (⟨c, l, k, v, r⟩ : Node κ ν).leanRight
      if n.right.isEmpty then
        if q n.key = .eq then (some n.entry, nil) else (none, n.repair.toTree)
      else
        let n := n.readyRight
        if q n.key = .eq then
          takeTop n
        else
          let (removed, rest) := removeBelow q n.right
          (removed, { n with right := rest }.repair.toTree)
termination_by t => t.size
decreasing_by
  · have h := (⟨c, l, k, v, r⟩ : Node κ ν).readyLeft.size_left_lt
    rwa [Node.size_readyLeft] at h
  · have h := (⟨c, l, k, v, r⟩ : Node κ ν).leanRight.readyRight.size_right_lt
    rwa [Node.size_readyRight, Node.size_leanRight] at h

/-- Removes an entry whose key is equal to the query, if the search ends at one, and
leaves the top black. -/
def remove (q : Query κ) (t : Tree κ ν) : Option (κ × ν) × Tree κ ν :=
  let (removed, rest) := t.removeBelow q
  (removed, rest.blacken)

end RedBlackMap.Tree

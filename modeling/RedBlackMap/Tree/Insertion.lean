import RedBlackMap.Tree.Rotation

/-!
# Insertion

An entry is added as a red node at the end of the search for its key. Nodes with
two red children are split on the way down and links are set right on the way up.
An equal key stays as it is and only its value is replaced.
-/
namespace RedBlackMap.Tree
universe u v
variable {κ : Type u} {ν : Type v}

/-- Inserts below a link whose colour the caller looks after. The answer says whether
the tree grew. -/
def insertBelow (cmp : Comparator κ) (key : κ) (value : ν) : Tree κ ν → Bool × Tree κ ν
  | nil => (true, node .red nil key value nil)
  | node c l k v r =>
    let n := (⟨c, l, k, v, r⟩ : Node κ ν).split
    match cmp key n.key with
    | .lt =>
      let (grown, below) := insertBelow cmp key value n.left
      (grown, { n with left := below }.settle.toTree)
    | .gt =>
      let (grown, below) := insertBelow cmp key value n.right
      (grown, { n with right := below }.settle.toTree)
    | .eq => (false, { n with value := value }.settle.toTree)
termination_by t => t.size
decreasing_by
  · have h := (⟨c, l, k, v, r⟩ : Node κ ν).split.size_left_lt
    rwa [Node.size_split] at h
  · have h := (⟨c, l, k, v, r⟩ : Node κ ν).split.size_right_lt
    rwa [Node.size_split] at h

def insert (cmp : Comparator κ) (key : κ) (value : ν) (t : Tree κ ν) : Bool × Tree κ ν :=
  let (grown, below) := t.insertBelow cmp key value
  (grown, below.blacken)

end RedBlackMap.Tree

import RedBlackMap.Tree.Basic

/-!
# Rotations and colour flips

The steps that reshape a tree at one node. Each of them keeps the entries in
their order, and so the number of nodes, whatever the shape and the colours.
-/
namespace RedBlackMap.Node
universe u v
variable {κ : Type u} {ν : Type v}

/-- The right child takes the place and the colour of the node, which becomes its red
left child. A node without a right child stays as it is. -/
def rotateLeft (n : Node κ ν) : Node κ ν :=
  match n.right with
  | .nil => n
  | .node _ l k v r => ⟨n.color, .node .red n.left n.key n.value l, k, v, r⟩

/-- The left child takes the place and the colour of the node, which becomes its red
right child. A node without a left child stays as it is. -/
def rotateRight (n : Node κ ν) : Node κ ν :=
  match n.left with
  | .nil => n
  | .node _ l k v r => ⟨n.color, l, k, v, .node .red r n.key n.value n.right⟩

def flip (n : Node κ ν) : Node κ ν :=
  { n with color := n.color.flip, left := n.left.flipTop, right := n.right.flipTop }

def rotateRightChild (n : Node κ ν) : Node κ ν :=
  match n.right with
  | .nil => n
  | .node c l k v r => { n with right := (rotateRight ⟨c, l, k, v, r⟩).toTree }

def split (n : Node κ ν) : Node κ ν :=
  if n.left.isRed && n.right.isRed then n.flip else n

/-- Turns two red links in a row on the left into two red children. -/
def spread (n : Node κ ν) : Node κ ν :=
  if n.left.isRed && n.left.left.isRed then n.rotateRight else n

/-- Repairs a node after an insertion below it. -/
def settle (n : Node κ ν) : Node κ ν :=
  (if n.right.isRed && !n.left.isRed then n.rotateLeft else n).spread.split

/-- Repairs a node after a removal below it. -/
def repair (n : Node κ ν) : Node κ ν :=
  (if n.right.isRed then n.rotateLeft else n).spread.split

/-- Lends a red link to the left child, taken from the right child if that has one to spare. -/
def lendLeft (n : Node κ ν) : Node κ ν :=
  let n := n.flip
  if n.right.left.isRed then n.rotateRightChild.rotateLeft.flip else n

def lendRight (n : Node κ ν) : Node κ ν :=
  let n := n.flip
  if n.left.left.isRed then n.rotateRight.flip else n

/-- Sees to it that a descent to the left finds a red link there. -/
def readyLeft (n : Node κ ν) : Node κ ν :=
  if !n.left.isRed && !n.left.left.isRed then n.lendLeft else n

def readyRight (n : Node κ ν) : Node κ ν :=
  if !n.right.isRed && !n.right.left.isRed then n.lendRight else n

/-- Moves a red link from the left child to the right one. -/
def leanRight (n : Node κ ν) : Node κ ν :=
  if n.left.isRed then n.rotateRight else n

@[simp] theorem toList_rotateLeft (n : Node κ ν) : n.rotateLeft.toList = n.toList := by
  rcases n with ⟨c, l, k, v, _ | _⟩ <;> simp [rotateLeft, toList, entry, Tree.toList]

@[simp] theorem toList_rotateRight (n : Node κ ν) : n.rotateRight.toList = n.toList := by
  rcases n with ⟨c, _ | _, k, v, r⟩ <;> simp [rotateRight, toList, entry, Tree.toList]

@[simp] theorem toList_flip (n : Node κ ν) : n.flip.toList = n.toList := by
  simp [flip, toList, entry]

@[simp] theorem toList_toTree (n : Node κ ν) : n.toTree.toList = n.toList := rfl

@[simp] theorem toList_rotateRightChild (n : Node κ ν) :
    n.rotateRightChild.toList = n.toList := by
  rcases n with ⟨c, l, k, v, _ | ⟨c', l', k', v', r'⟩⟩
  · rfl
  · have h := toList_rotateRight (⟨c', l', k', v', r'⟩ : Node κ ν)
    simp only [rotateRightChild, toList, entry, toList_toTree] at h ⊢
    rw [h]; rfl

@[simp] theorem toList_split (n : Node κ ν) : n.split.toList = n.toList := by
  unfold split; split <;> simp

@[simp] theorem toList_spread (n : Node κ ν) : n.spread.toList = n.toList := by
  unfold spread; split <;> simp

@[simp] theorem toList_settle (n : Node κ ν) : n.settle.toList = n.toList := by
  unfold settle; split <;> simp

@[simp] theorem toList_repair (n : Node κ ν) : n.repair.toList = n.toList := by
  unfold repair; split <;> simp

@[simp] theorem toList_lendLeft (n : Node κ ν) : n.lendLeft.toList = n.toList := by
  unfold lendLeft; dsimp only; split <;> simp

@[simp] theorem toList_lendRight (n : Node κ ν) : n.lendRight.toList = n.toList := by
  unfold lendRight; dsimp only; split <;> simp

@[simp] theorem toList_readyLeft (n : Node κ ν) : n.readyLeft.toList = n.toList := by
  unfold readyLeft; split <;> simp

@[simp] theorem toList_readyRight (n : Node κ ν) : n.readyRight.toList = n.toList := by
  unfold readyRight; split <;> simp

@[simp] theorem toList_leanRight (n : Node κ ν) : n.leanRight.toList = n.toList := by
  unfold leanRight; split <;> simp

theorem length_toList (n : Node κ ν) : n.toList.length = n.size := by
  simp [toList, size, Tree.length_toList]; omega

theorem size_eq_of_toList_eq {m n : Node κ ν} (h : m.toList = n.toList) : m.size = n.size := by
  rw [← length_toList, ← length_toList, h]

@[simp] theorem size_split (n : Node κ ν) : n.split.size = n.size :=
  size_eq_of_toList_eq n.toList_split

@[simp] theorem size_readyLeft (n : Node κ ν) : n.readyLeft.size = n.size :=
  size_eq_of_toList_eq n.toList_readyLeft

@[simp] theorem size_readyRight (n : Node κ ν) : n.readyRight.size = n.size :=
  size_eq_of_toList_eq n.toList_readyRight

@[simp] theorem size_leanRight (n : Node κ ν) : n.leanRight.size = n.size :=
  size_eq_of_toList_eq n.toList_leanRight

end RedBlackMap.Node

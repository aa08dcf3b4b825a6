import RedBlackMap.Proofs.Tree.Search
import RedBlackMap.Tree.Image
import RedBlackMap.Tree.Insertion
import RedBlackMap.Tree.Removal

/-!
# Operations on images

The steps that reshape a tree look at shapes and colours, and searches look at keys through
the comparator alone. Where the images of keys compare as the keys do, every operation on
the image of a tree gives the image of what it gives on the tree.
-/
namespace RedBlackMap
universe u v u' v'
variable {κ : Type u} {ν : Type v} {κ' : Type u'} {ν' : Type v'} (f : κ → κ') (g : ν → ν')

namespace Tree
variable (t : Tree κ ν)

@[simp] theorem isEmpty_image : (t.image f g).isEmpty = t.isEmpty := by
  cases t <;> rfl

@[simp] theorem isRed_image : (t.image f g).isRed = t.isRed := by
  rcases t with _ | ⟨_ | _, l, k, v, r⟩ <;> rfl

@[simp] theorem left_image : (t.image f g).left = t.left.image f g := by
  cases t <;> rfl

@[simp] theorem flipTop_image : (t.image f g).flipTop = t.flipTop.image f g := by
  cases t <;> rfl

@[simp] theorem blacken_image : (t.image f g).blacken = t.blacken.image f g := by
  cases t <;> rfl

end Tree

namespace Node
variable (n : Node κ ν)

@[simp] theorem left_image : (n.image f g).left = n.left.image f g := rfl
@[simp] theorem right_image : (n.image f g).right = n.right.image f g := rfl
@[simp] theorem key_image : (n.image f g).key = f n.key := rfl

@[simp] theorem rotateLeft_image : (n.image f g).rotateLeft = n.rotateLeft.image f g := by
  rcases n with ⟨c, l, k, v, _ | _⟩ <;> rfl

@[simp] theorem rotateRight_image : (n.image f g).rotateRight = n.rotateRight.image f g := by
  rcases n with ⟨c, _ | _, k, v, r⟩ <;> rfl

@[simp] theorem flip_image : (n.image f g).flip = n.flip.image f g := by
  simp [flip, image]

@[simp] theorem rotateRightChild_image :
    (n.image f g).rotateRightChild = n.rotateRightChild.image f g := by
  rcases n with ⟨c, l, k, v, _ | ⟨c', l', k', v', r'⟩⟩
  · rfl
  · have hchild := rotateRight_image f g ⟨c', l', k', v', r'⟩
    simp only [image] at hchild
    simp only [image, rotateRightChild, Tree.image, hchild]
    rfl

@[simp] theorem split_image : (n.image f g).split = n.split.image f g := by
  simp [split, apply_ite (image f g)]

@[simp] theorem spread_image : (n.image f g).spread = n.spread.image f g := by
  simp [spread, apply_ite (image f g)]

@[simp] theorem settle_image : (n.image f g).settle = n.settle.image f g := by
  simp only [settle, left_image, right_image, Tree.isRed_image]
  split <;> simp

@[simp] theorem repair_image : (n.image f g).repair = n.repair.image f g := by
  simp only [repair, right_image, Tree.isRed_image]
  split <;> simp

@[simp] theorem lendLeft_image : (n.image f g).lendLeft = n.lendLeft.image f g := by
  simp [lendLeft, apply_ite (image f g)]

@[simp] theorem lendRight_image : (n.image f g).lendRight = n.lendRight.image f g := by
  simp [lendRight, apply_ite (image f g)]

@[simp] theorem readyLeft_image : (n.image f g).readyLeft = n.readyLeft.image f g := by
  simp [readyLeft, apply_ite (image f g)]

@[simp] theorem readyRight_image : (n.image f g).readyRight = n.readyRight.image f g := by
  simp [readyRight, apply_ite (image f g)]

@[simp] theorem leanRight_image : (n.image f g).leanRight = n.leanRight.image f g := by
  simp [leanRight, apply_ite (image f g)]

end Node

namespace Tree

section Search
variable {q : Query κ} {q' : Query κ'} (hq : ∀ k, q' (f k) = q k)
include hq

theorem find?_image (t : Tree κ ν) : (t.image f g).find? q' = (t.find? q).map (Prod.map f g) := by
  induction t with
  | nil => rfl
  | node c l k v r ihl ihr =>
    rw [image, find?, find?, hq]
    split
    · exact ihl
    · exact ihr
    · rfl

theorem modify_image {h : ν → ν} {h' : ν' → ν'} (hg : ∀ v, h' (g v) = g (h v)) (t : Tree κ ν) :
    (t.image f g).modify q' h' = (t.modify q h).image f g := by
  induction t with
  | nil => rfl
  | node c l k v r ihl ihr =>
    rw [image, modify, modify, hq]
    split
    · rw [ihl, image]
    · rw [ihr, image]
    · rw [hg, image]

end Search

theorem min?_image (t : Tree κ ν) : (t.image f g).min? = t.min?.map (Prod.map f g) := by
  rw [min?_eq_head?, toList_image, List.head?_map, min?_eq_head?]

theorem max?_image (t : Tree κ ν) : (t.image f g).max? = t.max?.map (Prod.map f g) := by
  rw [max?_eq_getLast?, toList_image, List.getLast?_map, max?_eq_getLast?]

theorem insertBelow_image {cmp : Comparator κ} {cmp' : Comparator κ'}
    (hcmp : ∀ a b, cmp' (f a) (f b) = cmp a b) (key : κ) (value : ν) (t : Tree κ ν) :
    (t.image f g).insertBelow cmp' (f key) (g value) =
      (t.insertBelow cmp key value).map id (image f g) := by
  fun_induction Tree.insertBelow cmp key value t with
  | case1 => rw [image, insertBelow]; rfl
  | case2 c l k v r n hlt grown below hbelow ih =>
    have hsplit : (⟨c,l.image f g,f k,g v,r.image f g⟩ : Node κ' ν').split = n.image f g :=
      Node.split_image f g ⟨c,l,k,v,r⟩
    rw [hbelow] at ih
    rw [image, insertBelow, hsplit]
    simp only [Node.key_image, hcmp, hlt, Node.left_image, ih]
    exact congrArg (fun m : Node κ' ν' => (grown,m.toTree))
      (Node.settle_image f g { n with left := below })
  | case3 c l k v r n hgt grown below hbelow ih =>
    have hsplit : (⟨c,l.image f g,f k,g v,r.image f g⟩ : Node κ' ν').split = n.image f g :=
      Node.split_image f g ⟨c,l,k,v,r⟩
    rw [hbelow] at ih
    rw [image, insertBelow, hsplit]
    simp only [Node.key_image, hcmp, hgt, Node.right_image, ih]
    exact congrArg (fun m : Node κ' ν' => (grown,m.toTree))
      (Node.settle_image f g { n with right := below })
  | case4 c l k v r n heq =>
    have hsplit : (⟨c,l.image f g,f k,g v,r.image f g⟩ : Node κ' ν').split = n.image f g :=
      Node.split_image f g ⟨c,l,k,v,r⟩
    rw [image, insertBelow, hsplit]
    simp only [Node.key_image, hcmp, heq]
    exact congrArg (fun m : Node κ' ν' => (false,m.toTree))
      (Node.settle_image f g { n with value := value })

theorem insert_image {cmp : Comparator κ} {cmp' : Comparator κ'}
    (hcmp : ∀ a b, cmp' (f a) (f b) = cmp a b) (key : κ) (value : ν) (t : Tree κ ν) :
    (t.image f g).insert cmp' (f key) (g value) =
      (t.insert cmp key value).map id (image f g) := by
  rw [insert, insertBelow_image f g hcmp, insert]
  exact congrArg (Prod.mk _) (blacken_image f g _)

theorem popMin?_image (t : Tree κ ν) :
    (t.image f g).popMin? = t.popMin?.map (Prod.map (Prod.map f g) (image f g)) := by
  fun_induction popMin? t with
  | case1 => rw [image, popMin?]; rfl
  | case2 c l k v r hl =>
    rw [image, popMin?, isEmpty_image, if_pos hl]
    rfl
  | case3 c l k v r hl n ih =>
    have hready : (⟨c,l.image f g,f k,g v,r.image f g⟩ : Node κ' ν').readyLeft = n.image f g :=
      Node.readyLeft_image f g ⟨c,l,k,v,r⟩
    rw [image, popMin?, isEmpty_image, if_neg hl, hready]
    simp only [Node.left_image, ih, Option.map_map]
    refine congrArg (fun h => Option.map h n.left.popMin?) (funext fun p => ?_)
    exact congrArg (fun m : Node κ' ν' => (Prod.map f g p.1,m.toTree))
      (Node.repair_image f g { n with left := p.2 })

theorem takeTop_image (n : Node κ ν) :
    takeTop (n.image f g) = (takeTop n).map (Option.map (Prod.map f g)) (image f g) := by
  unfold takeTop
  rw [Node.right_image, popMin?_image]
  cases n.right.popMin? with
  | none =>
    exact congrArg (fun m : Node κ' ν' => (none,m.toTree)) (Node.repair_image f g n)
  | some p =>
    exact congrArg (fun m : Node κ' ν' => (some (Prod.map f g n.entry),m.toTree))
      (Node.repair_image f g { n with key := p.1.1, value := p.1.2, right := p.2 })

section Removal
variable {q : Query κ} {q' : Query κ'} (hq : ∀ k, q' (f k) = q k)
include hq

theorem removeBelow_image (t : Tree κ ν) : (t.image f g).removeBelow q' =
    (t.removeBelow q).map (Option.map (Prod.map f g)) (image f g) := by
  fun_induction removeBelow q t with
  | case1 => rw [image, removeBelow]; rfl
  | case2 c l k v r hlt hl =>
    rw [image, removeBelow, if_pos ((hq k).trans hlt), isEmpty_image, if_pos hl]
    exact congrArg (fun m : Node κ' ν' => (none,m.toTree)) (Node.repair_image f g ⟨c,l,k,v,r⟩)
  | case3 c l k v r hlt hl n removed rest hrest ih =>
    have hready : (⟨c,l.image f g,f k,g v,r.image f g⟩ : Node κ' ν').readyLeft = n.image f g :=
      Node.readyLeft_image f g ⟨c,l,k,v,r⟩
    rw [hrest] at ih
    rw [image, removeBelow, if_pos ((hq k).trans hlt), isEmpty_image, if_neg hl, hready]
    simp only [Node.left_image, ih]
    exact congrArg (fun m : Node κ' ν' => (removed.map (Prod.map f g),m.toTree))
      (Node.repair_image f g { n with left := rest })
  | case4 c l k v r hnlt n hr heq =>
    have hlean : (⟨c,l.image f g,f k,g v,r.image f g⟩ : Node κ' ν').leanRight = n.image f g :=
      Node.leanRight_image f g ⟨c,l,k,v,r⟩
    rw [image, removeBelow, if_neg (by rwa [hq]), hlean]
    simp only [Node.right_image, isEmpty_image, Node.key_image, hq, if_pos hr, if_pos heq]
    rfl
  | case5 c l k v r hnlt n hr hne =>
    have hlean : (⟨c,l.image f g,f k,g v,r.image f g⟩ : Node κ' ν').leanRight = n.image f g :=
      Node.leanRight_image f g ⟨c,l,k,v,r⟩
    rw [image, removeBelow, if_neg (by rwa [hq]), hlean]
    simp only [Node.right_image, isEmpty_image, Node.key_image, hq, if_pos hr, if_neg hne]
    exact congrArg (fun m : Node κ' ν' => (none,m.toTree)) (Node.repair_image f g n)
  | case6 c l k v r hnlt n₀ hr n heq =>
    have hready : (⟨c,l.image f g,f k,g v,r.image f g⟩ : Node κ' ν').leanRight.readyRight =
        n.image f g := by
      rw [← Node.readyRight_image]
      exact congrArg Node.readyRight (Node.leanRight_image f g ⟨c,l,k,v,r⟩)
    have hlean : (⟨c,l.image f g,f k,g v,r.image f g⟩ : Node κ' ν').leanRight = n₀.image f g :=
      Node.leanRight_image f g ⟨c,l,k,v,r⟩
    rw [image, removeBelow, if_neg (by rwa [hq])]
    simp only [hready]
    rw [if_neg (by simpa [hlean] using hr), if_pos (by rwa [Node.key_image, hq])]
    exact takeTop_image f g n
  | case7 c l k v r hnlt n₀ hr n hne removed rest hrest ih =>
    have hready : (⟨c,l.image f g,f k,g v,r.image f g⟩ : Node κ' ν').leanRight.readyRight =
        n.image f g := by
      rw [← Node.readyRight_image]
      exact congrArg Node.readyRight (Node.leanRight_image f g ⟨c,l,k,v,r⟩)
    have hlean : (⟨c,l.image f g,f k,g v,r.image f g⟩ : Node κ' ν').leanRight = n₀.image f g :=
      Node.leanRight_image f g ⟨c,l,k,v,r⟩
    rw [hrest] at ih
    rw [image, removeBelow, if_neg (by rwa [hq])]
    simp only [hready]
    rw [if_neg (by simpa [hlean] using hr), if_neg (by rwa [Node.key_image, hq])]
    simp only [Node.right_image, ih]
    exact congrArg (fun m : Node κ' ν' => (removed.map (Prod.map f g),m.toTree))
      (Node.repair_image f g { n with right := rest })

theorem remove_image (t : Tree κ ν) : (t.image f g).remove q' =
    (t.remove q).map (Option.map (Prod.map f g)) (image f g) := by
  rw [remove, removeBelow_image f g hq, remove]
  exact congrArg (Prod.mk _) (blacken_image f g _)

end Removal

end Tree

end RedBlackMap

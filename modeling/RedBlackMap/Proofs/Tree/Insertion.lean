import RedBlackMap.Proofs.Entries.Separation
import RedBlackMap.Proofs.Tree.Sound
import RedBlackMap.Tree.Insertion

/-!
# What an insertion does

The rules of colour and balance survive an insertion under any comparator. Where the
key separates the entries, the tree holds the entries with the new one at its place.
-/
namespace RedBlackMap
universe u v
variable {κ : Type u} {ν : Type v}

namespace Node
open RedBlackMap.Tree
variable {n : Node κ ν} {c : Color} {l r : Tree κ ν} {k : κ} {v : ν} {b : Nat}

theorem settle_eq_self (hr : n.right.isRed = false)
    (hl : n.left.isRed = true → n.left.left.isRed = false) : n.settle = n := by
  unfold settle
  rw [if_neg (by simp [hr]), spread_eq_self hl, split_eq_self hr]

theorem settle_right {x : κ} {y : ν} {a d : Tree κ ν} (hl : l.isRed = false)
    (hd : d.isRed = false) :
    (⟨c,l,k,v,.node .red a x y d⟩ : Node κ ν).settle = ⟨c,.node .red l k v a,x,y,d⟩ := by
  simp [settle, rotateLeft, spread, split, Tree.left, hl, hd]

theorem settle_both {x x' : κ} {y y' : ν} {a a' d d' : Tree κ ν} (ha : a.isRed = false) :
    (⟨c,.node .red a x y d,k,v,.node .red a' x' y' d'⟩ : Node κ ν).settle =
      ⟨c.flip,.node .black a x y d,k,v,.node .black a' x' y' d'⟩ := by
  simp [settle, spread, split, flip, flipTop, Color.flip, Tree.left, ha]

theorem settle_stack {x x' : κ} {y y' : ν} {a d d' : Tree κ ν} (hr : r.isRed = false) :
    (⟨c,.node .red (.node .red a x y d) x' y' d',k,v,r⟩ : Node κ ν).settle =
      ⟨c.flip,.node .black a x y d,x',y',.node .black d' k v r⟩ := by
  simp [settle, rotateRight, spread, split, flip, flipTop, Color.flip, Tree.left, hr]

/-- A node above the left subtree of an insertion. Only a black node has two red links in a
row to repair. -/
theorem settle_of_left (hr : n.right.Sound b) (hrb : n.right.isRed = false)
    (hl : n.left.Risen b) (hc : n.color = .red → n.left.Sound b) :
    n.settle.toTree.Risen (b + n.color.weight) ∧
      (n.color = .black → n.settle.toTree.Sound (b + n.color.weight)) := by
  by_cases hls : n.left.Sound b
  · rw [settle_eq_self hrb hls.left_isRed]
    rcases n with ⟨_ | _, l, k, v, r⟩
    · exact ⟨risen_red.mpr ⟨hrb, hls, hr⟩, nofun⟩
    · have hs : (node .black l k v r).Sound (b + 1) := sound_black.mpr ⟨hrb, hls, hr⟩
      exact ⟨hs.risen, fun _ => hs⟩
  · rcases n with ⟨_ | _, l, k, v, r⟩
    · exact absurd (hc rfl) hls
    · have hlr : l.isRed = true := Bool.of_not_eq_false fun h => hls (hl.sound h)
      obtain ⟨a, x, y, d, rfl⟩ := exists_red hlr
      obtain ⟨hdb, ha, hd⟩ := risen_red.mp hl
      have har : a.isRed = true :=
        Bool.of_not_eq_false fun h => hls (sound_red.mpr ⟨h, hdb, ha, hd⟩)
      obtain ⟨a', x', y', d', rfl⟩ := exists_red har
      rw [settle_stack hrb]
      obtain ⟨ha'b, hd'b, ha', hd'⟩ := sound_red.mp ha
      have hs : (node .red (.node .black a' x' y' d') x y (.node .black d k v r)).Sound (b + 1) :=
        sound_red.mpr ⟨rfl, rfl, sound_black.mpr ⟨hd'b, ha', hd'⟩, sound_black.mpr ⟨hrb, hd, hr⟩⟩
      exact ⟨hs.risen, fun _ => hs⟩

theorem settle_of_right (hl : n.left.Sound b) (hr : n.right.Sound b)
    (hc : n.color = .red → n.left.isRed = false) :
    n.settle.toTree.Risen (b + n.color.weight) ∧
      (n.color = .black → n.settle.toTree.Sound (b + n.color.weight)) := by
  cases hrr : n.right.isRed with
  | false => exact settle_of_left hr hrr hl.risen fun _ => hl
  | true =>
    rcases n with ⟨c, l, k, v, r⟩
    obtain ⟨a, x, y, d, rfl⟩ := exists_red hrr
    obtain ⟨hab, hdb, ha, hd⟩ := sound_red.mp hr
    cases hlr : l.isRed with
    | false =>
      rw [settle_right hlr hdb]
      have hls : (node .red l k v a).Sound b := sound_red.mpr ⟨hlr, hab, hl, ha⟩
      cases c with
      | red => exact ⟨risen_red.mpr ⟨hdb, hls, hd⟩, nofun⟩
      | black =>
        have hs : (node .black (.node .red l k v a) x y d).Sound (b + 1) :=
          sound_black.mpr ⟨hdb, hls, hd⟩
        exact ⟨hs.risen, fun _ => hs⟩
    | true =>
      obtain ⟨a', x', y', d', rfl⟩ := exists_red hlr
      obtain ⟨ha'b, hd'b, ha', hd'⟩ := sound_red.mp hl
      cases c with
      | red => cases hc rfl
      | black =>
        rw [settle_both ha'b]
        have hs : (node .red (.node .black a' x' y' d') k v (.node .black a x y d)).Sound (b + 1) :=
          sound_red.mpr ⟨rfl, rfl, sound_black.mpr ⟨hd'b, ha', hd'⟩, sound_black.mpr ⟨hdb, ha, hd⟩⟩
        exact ⟨hs.risen, fun _ => hs⟩

end Node

namespace Tree
variable {cmp : Comparator κ} {key : κ} {value : ν} {t : Tree κ ν} {b : Nat}

/-- A tree without a node to split takes the entry in below. -/
theorem insertBelow_node {c : Color} {l r : Tree κ ν} {k : κ} {v : ν} (hr : r.isRed = false) :
    (node c l k v r).insertBelow cmp key value =
      match cmp key k with
      | .lt => ((l.insertBelow cmp key value).1,
        (⟨c,(l.insertBelow cmp key value).2,k,v,r⟩ : Node κ ν).settle.toTree)
      | .gt => ((r.insertBelow cmp key value).1,
        (⟨c,l,k,v,(r.insertBelow cmp key value).2⟩ : Node κ ν).settle.toTree)
      | .eq => (false,(⟨c,l,k,value,r⟩ : Node κ ν).settle.toTree) := by
  cases h : cmp key k <;> rw [insertBelow, Node.split_eq_self hr] <;> simp only [h]

/-- Red links in a row are left behind at a red top only, whatever the comparator says. -/
theorem Sound.insertBelow (cmp : Comparator κ) (key : κ) (value : ν) (h : t.Sound b) :
    (t.insertBelow cmp key value).2.Risen b ∧
      (t.isRed = false → (t.insertBelow cmp key value).2.Sound b) := by
  induction t generalizing b with
  | nil =>
    obtain rfl := sound_nil.mp h
    have hs : (node .red nil key value nil).Sound 0 := by simp
    rw [Tree.insertBelow]
    exact ⟨hs.risen, fun _ => hs⟩
  | node c l k v r ihl ihr =>
    obtain ⟨b', rfl, hl, hr, hrb, hlb⟩ := h.children
    have hcolor : (node c l k v r).isRed = false → c = .black := by cases c <;> simp
    rw [insertBelow_node hrb]
    split
    case h_1 =>
      obtain ⟨hrisen, hsound⟩ := Node.settle_of_left (n := ⟨c,_,k,v,r⟩) hr hrb (ihl hl).1
        fun hc => (ihl hl).2 (hlb hc)
      exact ⟨hrisen, fun ht => hsound (hcolor ht)⟩
    case h_2 =>
      obtain ⟨hrisen, hsound⟩ := Node.settle_of_right (n := ⟨c,l,k,v,_⟩) hl ((ihr hr).2 hrb) hlb
      exact ⟨hrisen, fun ht => hsound (hcolor ht)⟩
    case h_3 =>
      obtain ⟨hrisen, hsound⟩ := Node.settle_of_right (n := ⟨c,l,k,value,r⟩) hl hr hlb
      exact ⟨hrisen, fun ht => hsound (hcolor ht)⟩

theorem Balanced.insert (cmp : Comparator κ) (key : κ) (value : ν) (h : t.Balanced b) :
    ∃ b', (t.insert cmp key value).2.Balanced b' ∧ (b' = b ∨ b' = b + 1) :=
  ((balanced_iff.mp h).2.insertBelow cmp key value).1.blacken

theorem toList_eq_split (c : Color) (l : Tree κ ν) (k : κ) (v : ν) (r : Tree κ ν) :
    (node c l k v r).toList = (⟨c,l,k,v,r⟩ : Node κ ν).split.left.toList ++
      (⟨c,l,k,v,r⟩ : Node κ ν).split.entry :: (⟨c,l,k,v,r⟩ : Node κ ν).split.right.toList :=
  (Node.toList_split ⟨c,l,k,v,r⟩).symm

/-- The shape of the tree plays no part in what it holds. -/
theorem insertBelow_entries (h : Query.Separates (cmp key) t.toList) :
    (t.insertBelow cmp key value).1 = (Entries.find? cmp key t.toList).isNone ∧
      (t.insertBelow cmp key value).2.toList = Entries.insert cmp key value t.toList := by
  fun_induction Tree.insertBelow cmp key value t with
  | case1 => exact ⟨rfl, rfl⟩
  | case2 c l k v r n hlt grown below hbelow ih =>
    rw [toList_eq_split] at h ⊢
    obtain ⟨hanswer, hlist⟩ := ih h.left
    rw [hbelow] at hanswer hlist
    constructor
    · rw [Entries.find?_eq_hits, h.find?_lt hlt]
      exact hanswer
    · rw [Node.toList_toTree, Node.toList_settle, Entries.insert_append_lt hlt, ← hlist]
      rfl
  | case3 c l k v r n hgt grown below hbelow ih =>
    rw [toList_eq_split] at h ⊢
    obtain ⟨hanswer, hlist⟩ := ih h.right
    rw [hbelow] at hanswer hlist
    have hne : cmp key n.key ≠ .lt := by simp [hgt]
    have hleft : ∀ x ∈ n.left.toList, cmp key x.1 = .gt := fun x hx => h.gt_left hne hx
    constructor
    · rw [Entries.find?_eq_hits, h.find?_gt hgt]
      exact hanswer
    · rw [Node.toList_toTree, Node.toList_settle, Entries.insert_append_gt hleft, Entries.insert]
      simp only [Node.entry, n, hgt, ← hlist]
      rfl
  | case4 c l k v r n heq =>
    rw [toList_eq_split] at h ⊢
    have hne : cmp key n.key ≠ .lt := by simp [heq]
    have hleft : ∀ x ∈ n.left.toList, cmp key x.1 = .gt := fun x hx => h.gt_left hne hx
    constructor
    · rw [Entries.find?_eq_hits, h.find?_eq heq]
      rfl
    · rw [Node.toList_toTree, Node.toList_settle, Entries.insert_append_gt hleft, Entries.insert]
      simp only [Node.entry, n, heq]
      rfl

theorem insert_entries (value : ν) (h : Query.Separates (cmp key) t.toList) :
    (t.insert cmp key value).1 = (Entries.find? cmp key t.toList).isNone ∧
      (t.insert cmp key value).2.toList = Entries.insert cmp key value t.toList := by
  simpa [insert] using insertBelow_entries h

end Tree

end RedBlackMap
